import N8n.AstInterpreter.Interpreter

/-!
# Which functions a program can have called

* `AstInterpreter.Confined`: all calls are of functions that a program may call, and no dangerous
  property is read;
* `AstInterpreter.Traced`: what holds of the variables, calls and reads at any time;
* `AstInterpreter.yields_evaluateWithin`, `yields_interpretFrom`: every evaluation keeps it;
* `AstInterpreter.Tight`: what the checks of the interpreter leave open;
* `AstInterpreter.confined_iff`: a program is confined exactly when nothing of this happens.
-/

namespace N8n

namespace AstInterpreter

/-- The functions of the SDK. -/
def Interpreter.given {H : Type} (interpreter : Interpreter H) : List Ref :=
  interpreter.sdkFunctions.values

/-- A call that a program may make: of a function of the SDK, of `JSON.stringify` or
`String.prototype.repeat`, or of an allowed method of an object of the SDK. -/
def Invocation.Allowed (given : List Ref) : Invocation → Prop
  | .stringify | .repeatText => True
  | .method fromSdk methodName f => f ∈ given ∨ fromSdk = true ∧ methodName ∈ ALLOWED_METHODS
  | .named _ f | .inherited _ f | .substitute _ f | .implicit f => f ∈ given

instance (given : List Ref) : DecidablePred (Invocation.Allowed given)
  | .stringify | .repeatText => isTrue trivial
  | .method _ _ _ => inferInstanceAs (Decidable (_ ∨ _))
  | .named _ _ | .inherited _ _ | .substitute _ _ | .implicit _ =>
    inferInstanceAs (Decidable (_ ∈ _))

def PropertyRead.key : PropertyRead → PropertyKey
  | .member key | .spread key => key

/-- Whether a key is one of the dangerous names. -/
def PropertyKey.Dangerous : PropertyKey → Prop
  | .name s => AstInterpreter.Dangerous s
  | _ => False

section Confinement

variable {H : Type}

/-- Every function called is one that a program may call, and no dangerous property is read. -/
structure Confined (given : List Ref) (s : State H) : Prop where
  invocations : ∀ i ∈ s.invocations, i.Allowed given
  reads : ∀ r ∈ s.reads, ¬ r.key.Dangerous

/-- What the checks leave open does not happen: no function that a member access or a call gave is
called through a variable, no method of `JSON` or of a text is found above the table of safe
methods, an object of the program has methods of the SDK only, no function has its own `apply`, no
operation runs a function of an operand, and no property with a dangerous name is spread. -/
structure Tight (given : List Ref) (s : State H) : Prop where
  named : ∀ name f, .named name f ∈ s.invocations → f ∈ s.obtained → f ∈ given
  inherited : ∀ methodName f, .inherited methodName f ∈ s.invocations → f ∈ given
  method : ∀ methodName f, .method false methodName f ∈ s.invocations → f ∈ given
  substitute : ∀ f apply, .substitute f apply ∈ s.invocations → apply ∈ given
  implicit : ∀ f, .implicit f ∈ s.invocations → f ∈ given
  spread : ∀ key, .spread key ∈ s.reads → ¬ key.Dangerous

/-! ### The invariant -/

/-- A function that a program can hold: one of the SDK, or one that it was given since. -/
def Known (given : List Ref) (v : Value) (s : State H) : Prop :=
  ∀ f, v = .function f → f ∈ given ∨ f ∈ s.obtained

/-- What holds of the variables, calls and reads at any time. -/
structure Traced (given : List Ref) (s : State H) : Prop where
  variableMap : ∀ name v, s.variableMap.get? name = some v → Known given v s
  named : ∀ name f, .named name f ∈ s.invocations → f ∈ given ∨ f ∈ s.obtained
  method : ∀ fromSdk methodName f, .method fromSdk methodName f ∈ s.invocations →
    methodName ∈ ALLOWED_METHODS
  member : ∀ key, .member key ∈ s.reads → ¬ key.Dangerous

/-- Functions that were obtained stay obtained. -/
instance : Preorder (State H) where
  le s s' := s.obtained ⊆ s'.obtained
  le_refl s := List.Subset.refl s.obtained
  le_trans _ _ _ h h' := List.Subset.trans h h'

variable {given : List Ref} {s s' : State H} {v : Value}

theorem Known.mono (h : Known given v s) (hle : s ≤ s') : Known given v s' :=
  fun f hf => (h f hf).imp_right fun hmem => hle hmem

theorem known_primitive (p : Primitive) : Known given (.primitive p) s := fun _ h => by cases h

theorem known_object (r : Ref) : Known given (.object r) s := fun _ h => by cases h

theorem known_function {f : Ref} (h : f ∈ given) : Known given (.function f) s := by
  intro f' hf
  cases hf
  exact .inl h

theorem obtained_addObtained (v : Value) (s : State H) : s ≤ s.addObtained v := by
  cases v with
  | function f => exact List.subset_append_left _ _
  | _ => exact List.Subset.refl _

theorem known_addObtained (v : Value) (s : State H) : Known given v (s.addObtained v) := by
  intro f hf
  subst hf
  exact .inr (by simp [State.addObtained])

theorem Traced.setHeap (h : Traced given s) (heap : H) : Traced given (s.setHeap heap) :=
  ⟨h.variableMap, h.named, h.method, h.member⟩

theorem Traced.addObtained (h : Traced given s) (v : Value) : Traced given (s.addObtained v) := by
  have hle := obtained_addObtained v s
  cases v with
  | function f =>
    refine ⟨fun name w hw => (h.variableMap name w hw).mono hle, fun name g hg => ?_, h.method,
      h.member⟩
    exact (h.named name g hg).imp_right fun hmem => hle hmem
  | _ => exact h

theorem Traced.addMade (h : Traced given s) (v : Value) : Traced given (s.addMade v) := by
  cases v with
  | object r => exact ⟨h.variableMap, h.named, h.method, h.member⟩
  | _ => exact h

theorem Traced.setRenamed (h : Traced given s) (name safeName : String) :
    Traced given (s.setRenamed name safeName) := ⟨h.variableMap, h.named, h.method, h.member⟩

theorem Traced.setVariable (h : Traced given s) (name : String) (hv : Known given v s) :
    Traced given (s.setVariable name v) := by
  refine ⟨fun name' w hw => ?_, h.named, h.method, h.member⟩
  change (s.variableMap.set name v).get? name' = some w at hw
  rw [Dict.get?_set] at hw
  split_ifs at hw with hname
  · cases hw
    exact hv
  · exact h.variableMap name' w hw

theorem Traced.addRead (h : Traced given s) {r : PropertyRead}
    (hr : ∀ key, r = .member key → ¬ key.Dangerous) : Traced given (s.addRead r) := by
  refine ⟨h.variableMap, h.named, h.method, fun key hkey => ?_⟩
  rcases List.mem_append.1 hkey with hkey | hkey
  · exact h.member key hkey
  · exact hr key (List.mem_singleton.1 hkey).symm

/-- What is asked of a call that is made. -/
def Traceable (given : List Ref) (s : State H) : Invocation → Prop
  | .named _ f => f ∈ given ∨ f ∈ s.obtained
  | .method _ methodName _ => methodName ∈ ALLOWED_METHODS
  | _ => True

theorem Traced.addInvocation (h : Traced given s) {i : Invocation} (hi : Traceable given s i) :
    Traced given (s.addInvocation i) := by
  refine ⟨h.variableMap, fun name f hf => ?_, fun fromSdk m f hf => ?_, h.member⟩
  · rcases List.mem_append.1 hf with hf | hf
    · exact h.named name f hf
    · rw [← List.mem_singleton.1 hf] at hi
      exact hi
  · rcases List.mem_append.1 hf with hf | hf
    · exact h.method fromSdk m f hf
    · rw [← List.mem_singleton.1 hf] at hi
      exact hi

theorem Traceable.mono {i : Invocation} (h : Traceable given s i) (hle : s ≤ s') :
    Traceable given s' i := by
  cases i with
  | named name f => exact h.imp_right fun hmem => hle hmem
  | method fromSdk m f => exact h
  | _ => trivial

/-! ### Operations of the engine -/

section Operations

open Stateful

variable {α : Type}

theorem yields_onHeap (op : H → Except Thrown α × H) (hs : Traced given s) :
    Yields (Traced given) s (onHeap op) fun _ _ => True :=
  ⟨hs.setHeap _, List.Subset.refl _, fun _ _ => trivial⟩

theorem yields_addRead {r : PropertyRead} (hr : ∀ key, r = .member key → ¬ key.Dangerous)
    (hs : Traced given s) : Yields (Traced given) s
      (change (State.addRead r) : Eval H PUnit) fun _ _ => True :=
  Yields.change (hs.addRead hr) (List.Subset.refl _) trivial

theorem yields_addInvocation {i : Invocation} (hi : Traceable given s i) (hs : Traced given s) :
    Yields (Traced given) s (change (State.addInvocation i) : Eval H PUnit) fun _ _ => True :=
  Yields.change (hs.addInvocation hi) (List.Subset.refl _) trivial

theorem yields_receive (v : Value) (hs : Traced given s) :
    Yields (Traced given) s (receive v : Eval H Value) (Known given) := by
  refine Yields.bind (Q := fun _ s' => Known given v s') ?_ fun _ s₁ h₁ _ hv => Yields.pure h₁ hv
  exact Yields.change (hs.addObtained v) (obtained_addObtained v s) (known_addObtained v s)

variable {interpreter : Interpreter H}

theorem yields_call {i : Invocation} (f : Ref) (thisArg : Value) (args : List Value)
    (hi : Traceable given s i) (hs : Traced given s) :
    Yields (Traced given) s (call interpreter i f thisArg args) (Known given) := by
  refine (yields_addInvocation hi hs).bind fun _ s₁ h₁ _ _ => ?_
  exact (yields_onHeap _ h₁).bind fun v s₂ h₂ _ _ => yields_receive v h₂

theorem yields_runScript (script : Script H α) (hs : Traced given s) :
    Yields (Traced given) s (runScript interpreter script) fun _ _ => True := by
  induction script generalizing s with
  | done result heap =>
    have hheap : Yields (Traced given) s (change (State.setHeap heap) : Eval H PUnit)
        fun _ _ => True := Yields.change (hs.setHeap heap) (List.Subset.refl _) trivial
    exact hheap.bind fun _ s₁ h₁ _ _ => Yields.lift h₁ fun _ _ => trivial
  | invoke f thisArg args heap next ih =>
    have hheap : Yields (Traced given) s (change (State.setHeap heap) : Eval H PUnit)
        fun _ _ => True := Yields.change (hs.setHeap heap) (List.Subset.refl _) trivial
    refine hheap.bind fun _ s₁ h₁ _ _ => ?_
    refine (yields_call (i := .implicit f) f thisArg args trivial h₁).bind fun v s₂ h₂ _ _ => ?_
    refine Yields.bind (Q := fun _ _ => True) (Yields.reading h₂ trivial) fun heap' s₃ h₃ _ _ => ?_
    exact ih v heap' h₃

theorem yields_perform (op : H → Script H α) (hs : Traced given s) :
    Yields (Traced given) s (perform interpreter op) fun _ _ => True :=
  Yields.bind (Q := fun _ _ => True) (Yields.reading hs trivial) fun heap _ h₁ _ _ =>
    yields_runScript (op heap) h₁

theorem yields_makeObject (new : H → Ref × H) (hs : Traced given s) :
    Yields (Traced given) s (makeObject new) (Known given) := by
  refine (yields_onHeap _ hs).bind fun r s₁ h₁ _ _ => ?_
  refine Yields.bind (Q := fun _ _ => True) ?_ fun _ s₂ h₂ _ _ => Yields.pure h₂ (known_object r)
  exact Yields.change (h₁.addMade _) (List.Subset.refl _) trivial

theorem yields_applyFunction {i : Invocation} (f : Ref) (thisArg : Value) (args : List Value)
    (hi : Traceable given s i) (hs : Traced given s) :
    Yields (Traced given) s (applyFunction interpreter i f thisArg args) (Known given) := by
  refine (yields_perform _ hs).bind fun method s₁ h₁ hle _ => ?_
  cases method with
  | function g =>
    dsimp only
    split_ifs
    · exact yields_call f thisArg args (hi.mono hle) h₁
    · exact (yields_onHeap _ h₁).bind fun array s₂ h₂ _ _ =>
        yields_call (i := .substitute f g) g _ _ trivial h₂
  | primitive p => exact Yields.fail h₁ _
  | object r => exact Yields.fail h₁ _

end Operations

/-! ### Expressions -/

section Expressions

open Stateful

variable {interpreter : Interpreter H} {eval : Expr → Eval H Value}

/-- The evaluation of the expressions inside keeps the invariant. -/
def Evaluates (given : List Ref) (eval : Expr → Eval H Value) : Prop :=
  ∀ e s, Traced given s → Yields (Traced given) s (eval e) (Known given)

theorem Evaluates.all (heval : Evaluates given eval) (l : List Expr) (hs : Traced given s) :
    Yields (Traced given) s (all eval l) fun _ _ => True :=
  Yields.all (fun e _ h => (heval e _ h).any) l hs

theorem yields_safeMethod? (table : Ref) (own : String) {methodName : String}
    (hname : ¬ Dangerous methodName) (hs : Traced given s) :
    Yields (Traced given) s (safeMethod? interpreter table own methodName) fun _ _ => True := by
  unfold safeMethod?
  split_ifs
  · exact Yields.pure hs trivial
  · have hread : Yields (Traced given) s
        (change (State.addRead (.member (.name methodName))) : Eval H PUnit) fun _ _ => True := by
      refine yields_addRead (fun key hkey => ?_) hs
      cases hkey
      exact hname
    refine hread.bind fun _ s₁ h₁ _ _ => ?_
    exact (yields_perform _ h₁).bind fun v s₂ h₂ _ _ => Yields.pure h₂ trivial

theorem yields_callAbove (methodName : String) (v : Value) (args : List Value)
    (hs : Traced given s) :
    Yields (Traced given) s (callAbove interpreter methodName v args) (Known given) := by
  cases v with
  | function f => exact yields_call (i := .inherited methodName f) f _ _ trivial hs
  | primitive p => exact Yields.fail hs _
  | object r => exact Yields.fail hs _

theorem yields_callSafeJSON (safe : SafeMethod) (methodName : String) (args : List Value)
    (hs : Traced given s) :
    Yields (Traced given) s (callSafeJSON interpreter safe methodName args) (Known given) := by
  cases safe with
  | own =>
    refine (yields_addInvocation (i := .stringify) trivial hs).bind fun _ s₁ h₁ _ _ => ?_
    exact (yields_onHeap _ h₁).bind fun p s₂ h₂ _ _ => Yields.pure h₂ (known_primitive p)
  | above v => exact yields_callAbove methodName v args hs

theorem yields_callSafeString (text : String) (safe : SafeMethod) (methodName : String)
    (args : List Value) (hs : Traced given s) :
    Yields (Traced given) s (callSafeString interpreter text safe methodName args) (Known given) := by
  cases safe with
  | own =>
    refine (yields_addInvocation (i := .repeatText) trivial hs).bind fun _ s₁ h₁ _ _ => ?_
    exact (yields_onHeap _ h₁).bind fun p s₂ h₂ _ _ => Yields.pure h₂ (known_primitive _)
  | above v => exact yields_callAbove methodName v _ hs

theorem yields_callFunction (heval : Evaluates given eval) {i : Ref → Invocation} {func : Value}
    (hi : ∀ f, func = .function f → Traceable given s (i f)) (thisArg : Value)
    (arguments : List Expr) (hs : Traced given s) :
    Yields (Traced given) s (callFunction interpreter eval i func thisArg arguments)
      (Known given) := by
  cases func with
  | function f =>
    refine (heval.all arguments hs).bind fun args s₁ h₁ hle _ => ?_
    exact yields_applyFunction f thisArg args ((hi f rfl).mono hle) h₁
  | primitive p => exact Yields.fail hs _
  | object r => exact Yields.fail hs _

/-- A name in front of a call stands for a function that the program can hold. -/
theorem yields_calleeOf (name : String) (hs : Traced interpreter.given s) :
    Yields (Traced interpreter.given) s (calleeOf interpreter name) (Known interpreter.given) := by
  unfold calleeOf
  cases hf : interpreter.sdkFunctions.get? name with
  | some f =>
    exact Yields.pure hs (known_function ((Dict.mem_values_iff _ f).2 ⟨name, hf⟩))
  | none =>
    have hread : Yields (Traced interpreter.given) s
        (reading fun s : State H => s.variableMap.get? (s.resolvedName name) :
          Eval H (Option Value))
        fun v? s' => ∀ v, v? = some v → Known interpreter.given v s' :=
      Yields.reading hs fun v hv => hs.variableMap _ v hv
    refine hread.bind fun v? s₁ h₁ _ hv => ?_
    cases v? with
    | some v => exact Yields.pure h₁ (hv v rfl)
    | none => exact Yields.fail h₁ _

theorem yields_callMethod (heval : Evaluates given eval) (thisArg : Value) {methodName : String}
    (hname : ¬ Dangerous methodName) (arguments : List Expr) (hs : Traced given s) :
    Yields (Traced given) s (callMethod interpreter eval thisArg methodName arguments)
      (Known given) := by
  unfold callMethod
  by_cases hallowed : isAllowedMethod methodName = true
  · have hmem : methodName ∈ ALLOWED_METHODS := by simpa [isAllowedMethod] using hallowed
    rw [if_neg (by simp [hallowed])]
    cases thisArg with
    | object r =>
      refine Yields.bind (Q := fun _ _ => True) (Yields.reading hs trivial)
        fun fromSdk s₁ h₁ _ _ => ?_
      have hread : Yields (Traced given) s₁
          (change (State.addRead (.member (.name methodName))) : Eval H PUnit)
          fun _ _ => True := by
        refine yields_addRead (fun key hkey => ?_) h₁
        cases hkey
        exact hname
      refine hread.bind fun _ s₂ h₂ _ _ => ?_
      refine (yields_perform _ h₂).bind fun func s₃ h₃ _ _ => ?_
      exact yields_callFunction (i := .method fromSdk methodName) heval
        (fun _ _ => hmem) _ arguments h₃
    | primitive p => exact Yields.fail hs _
    | function f => exact Yields.fail hs _
  · rw [if_pos (by simp [hallowed])]
    exact Yields.fail hs _

theorem yields_getSafeStringMethod (value : Value) {methodName : String}
    (hname : ¬ Dangerous methodName) (hs : Traced given s) :
    Yields (Traced given) s (getSafeStringMethod interpreter value methodName)
      fun _ _ => True := by
  unfold getSafeStringMethod
  split
  · exact (yields_safeMethod? _ _ hname hs).bind fun safe s₁ h₁ _ _ => Yields.pure h₁ trivial
  · exact Yields.pure hs trivial

theorem yields_visitMethodCall (heval : Evaluates given eval) (object : Expr) {methodName : String}
    (hname : ¬ Dangerous methodName) (arguments : List Expr) (hs : Traced given s) :
    Yields (Traced given) s (visitMethodCall interpreter eval object methodName arguments)
      (Known given) := by
  refine (heval object s hs).bind fun thisArg s₁ h₁ _ _ => ?_
  refine (yields_getSafeStringMethod thisArg hname h₁).bind fun safe? s₂ h₂ _ _ => ?_
  cases safe? with
  | some found =>
    exact (heval.all arguments h₂).bind fun args s₃ h₃ _ _ => yields_callSafeString _ _ _ _ h₃
  | none => exact yields_callMethod heval thisArg hname arguments h₂

theorem yields_visitMemberCall (heval : Evaluates given eval) (object property : Expr)
    (computed : Bool) (arguments : List Expr) (hs : Traced given s) :
    Yields (Traced given) s
      (visitMemberCall interpreter eval object property computed arguments) (Known given) := by
  have hvalid : Yields (Traced given) s
      (lift (validateMemberExpression property computed) : Eval H Unit)
      fun _ _ => validateMemberExpression property computed = .ok () := Yields.lift hs fun _ h => h
  refine hvalid.bind fun _ s₁ h₁ _ hok => ?_
  split
  · exact Yields.fail h₁ _
  · exact Yields.fail h₁ _
  · next object _ _ methodName _ hname =>
    have hsafe := not_dangerous_of_validate hok hname
    have hjson : Yields (Traced given) s₁
        (getSafeJSONMethod interpreter (identifierName object) methodName) fun _ _ => True := by
      unfold getSafeJSONMethod
      split_ifs
      · exact Yields.pure h₁ trivial
      · exact yields_safeMethod? _ _ hsafe h₁
    refine hjson.bind fun safe? s₂ h₂ _ _ => ?_
    cases safe? with
    | some safe =>
      exact (heval.all arguments h₂).bind fun args s₃ h₃ _ _ => yields_callSafeJSON _ _ _ h₃
    | none => exact yields_visitMethodCall heval object hsafe arguments h₂

theorem yields_visitCallExpression (heval : Evaluates interpreter.given eval) (callee : Expr)
    (arguments : List Expr) (hs : Traced interpreter.given s) :
    Yields (Traced interpreter.given) s (visitCallExpression interpreter eval callee arguments)
      (Known interpreter.given) := by
  refine Yields.bind (Q := fun _ _ => True) (Yields.lift hs fun _ _ => trivial) fun _ s₁ h₁ _ _ => ?_
  split
  · next name =>
    refine (yields_calleeOf name h₁).bind fun func s₂ h₂ _ hfunc => ?_
    exact yields_callFunction (i := .named name) heval (fun f hf => hfunc f hf) _ arguments h₂
  · exact yields_visitMemberCall heval _ _ _ arguments h₁
  · exact Yields.fail h₁ _

theorem not_dangerous_of_propertyKey? {property : Expr} {computed : Bool}
    (h : validateMemberExpression property computed = .ok ()) {key : PropertyKey}
    (hkey : propertyKey? property computed = some key) : ¬ key.Dangerous := by
  unfold propertyKey? at hkey
  split at hkey
  · split_ifs at hkey
    cases hkey
    exact not_dangerous_of_validate h rfl
  · cases hkey
    exact not_dangerous_of_validate h rfl
  · cases hkey
    exact not_false
  · cases hkey

theorem yields_visitMemberExpression (heval : Evaluates given eval) (object property : Expr)
    (computed : Bool) (hs : Traced given s) :
    Yields (Traced given) s (visitMemberExpression interpreter eval object property computed)
      (Known given) := by
  have hvalid : Yields (Traced given) s
      (lift (validateMemberExpression property computed) : Eval H Unit)
      fun _ _ => validateMemberExpression property computed = .ok () := Yields.lift hs fun _ h => h
  refine hvalid.bind fun _ s₁ h₁ _ hok => ?_
  split
  · exact Yields.fail h₁ _
  · refine (heval _ s₁ h₁).bind fun obj s₂ h₂ _ _ => ?_
    split_ifs
    · exact Yields.fail h₂ _
    · cases hkey : propertyKey? property computed with
      | none => exact Yields.fail h₂ _
      | some key =>
        have hread : Yields (Traced given) s₂
            (change (State.addRead (.member key)) : Eval H PUnit) fun _ _ => True := by
          refine yields_addRead (fun key' hkey' => ?_) h₂
          cases hkey'
          exact not_dangerous_of_propertyKey? hok hkey
        refine hread.bind fun _ s₃ h₃ _ _ => ?_
        exact (yields_perform _ h₃).bind fun v s₄ h₄ _ _ => yields_receive v h₄

theorem yields_visitAssignmentExpression (heval : Evaluates given eval) (operator : String)
    (left right : Expr) (hs : Traced given s) :
    Yields (Traced given) s (visitAssignmentExpression interpreter eval operator left right)
      (Known given) := by
  unfold visitAssignmentExpression
  split_ifs
  · exact Yields.fail hs _
  · split
    · refine Yields.bind (Q := fun _ _ => True) (Yields.lift hs fun _ _ => trivial)
        fun _ s₁ h₁ _ _ => ?_
      split
      · exact Yields.fail h₁ _
      · refine (heval _ s₁ h₁).bind fun obj s₂ h₂ _ _ => ?_
        split_ifs
        · exact Yields.fail h₂ _
        · split
          · exact Yields.fail h₂ _
          · refine (heval right s₂ h₂).bind fun value s₃ h₃ _ hvalue => ?_
            exact (yields_perform _ h₃).bind fun _ s₄ h₄ hle _ => Yields.pure h₄ (hvalue.mono hle)
    · exact Yields.fail hs _

theorem yields_objectAssign (result : Value) (source : Ref) (hs : Traced given s) :
    Yields (Traced given) s (objectAssign interpreter result source) fun _ _ => True := by
  refine Yields.bind (Q := fun _ _ => True) (Yields.reading hs trivial) fun keys s₁ h₁ _ _ => ?_
  refine Yields.each (fun key s₂ h₂ => ?_) keys h₁
  refine (yields_addRead (fun key' hkey' => by cases hkey') h₂).bind fun _ s₃ h₃ _ _ => ?_
  exact (yields_perform _ h₃).bind fun v s₄ h₄ _ _ => yields_perform _ h₄

theorem yields_visitProperty (heval : Evaluates given eval) (result : Value)
    (property : Property Expr) (hs : Traced given s) :
    Yields (Traced given) s (visitProperty interpreter eval result property) fun _ _ => True := by
  cases property with
  | spread argument =>
    refine (heval argument s hs).bind fun spreadValue s₁ h₁ _ _ => ?_
    cases spreadValue with
    | object source => exact yields_objectAssign result source h₁
    | primitive p => exact Yields.pure h₁ trivial
    | function f => exact Yields.pure h₁ trivial
  | property key value =>
    unfold visitProperty
    dsimp only
    cases objectKey? key with
    | none => exact Yields.fail hs _
    | some k => exact (heval value s hs).bind fun v s₁ h₁ _ _ => yields_perform _ h₁

theorem yields_visitObjectExpression (heval : Evaluates given eval)
    (properties : List (Property Expr)) (hs : Traced given s) :
    Yields (Traced given) s (visitObjectExpression interpreter eval properties) (Known given) := by
  refine (yields_makeObject _ hs).bind fun result s₁ h₁ _ hresult => ?_
  refine (Yields.each (fun property s' h' => yields_visitProperty heval result property h')
    properties h₁).bind fun _ s₂ h₂ hle _ => ?_
  exact Yields.pure h₂ (hresult.mono hle)

theorem yields_visitElement (heval : Evaluates given eval) (element : Option Expr)
    (hs : Traced given s) :
    Yields (Traced given) s (visitElement interpreter eval element) fun _ _ => True := by
  unfold visitElement
  split
  · exact Yields.pure hs trivial
  · refine (heval _ s hs).bind fun spreadValue s₁ h₁ _ _ => ?_
    cases spreadValue with
    | object r =>
      refine Yields.bind (Q := fun _ _ => True) (Yields.reading h₁ trivial)
        fun isArray s₂ h₂ _ _ => ?_
      split_ifs
      · exact yields_perform _ h₂
      · exact Yields.pure h₂ trivial
    | primitive p => exact Yields.pure h₁ trivial
    | function f => exact Yields.pure h₁ trivial
  · exact (heval _ s hs).bind fun v s₁ h₁ _ _ => Yields.pure h₁ trivial

theorem yields_visitArrayExpression (heval : Evaluates given eval) (elements : List (Option Expr))
    (hs : Traced given s) :
    Yields (Traced given) s (visitArrayExpression interpreter eval elements) (Known given) :=
  (Yields.all (fun element _ h => yields_visitElement heval element h) elements hs).bind
    fun _ _ h₁ _ _ => yields_makeObject _ h₁

theorem known_of_builtin? {name : String} (h : builtin? name = some v) : Known given v s := by
  unfold builtin? at h
  split at h <;> cases h <;> exact known_primitive _

theorem yields_visitIdentifier (name : String) (hs : Traced interpreter.given s) :
    Yields (Traced interpreter.given) s (visitIdentifier interpreter name)
      (Known interpreter.given) := by
  refine Yields.bind (Q := fun _ _ => True) (Yields.lift hs fun _ _ => trivial) fun _ s₁ h₁ _ _ => ?_
  have hread : Yields (Traced interpreter.given) s₁
      (reading fun s : State H => s.variableMap.get? (s.resolvedName name) : Eval H (Option Value))
      fun v? s' => ∀ v, v? = some v → Known interpreter.given v s' :=
    Yields.reading h₁ fun v hv => h₁.variableMap _ v hv
  refine hread.bind fun v? s₂ h₂ _ hv => ?_
  cases v? with
  | some v => exact Yields.pure h₂ (hv v rfl)
  | none =>
    dsimp only
    cases hf : interpreter.sdkFunctions.get? name with
    | some f => exact Yields.pure h₂ (known_function ((Dict.mem_values_iff _ f).2 ⟨name, hf⟩))
    | none =>
      cases hbuiltin : builtin? name with
      | some v => exact Yields.pure h₂ (known_of_builtin? hbuiltin)
      | none => exact Yields.fail h₂ _

theorem yields_evaluateTemplateExpression (heval : Evaluates given eval) (e : Expr)
    (hs : Traced given s) :
    Yields (Traced given) s (evaluateTemplateExpression interpreter eval e) fun _ _ => True := by
  unfold evaluateTemplateExpression
  split_ifs
  · exact Yields.bind (Q := fun _ _ => True) (Yields.lift hs fun _ _ => trivial)
      fun _ s₁ h₁ _ _ => Yields.pure h₁ trivial
  · exact (heval e s hs).bind fun v s₁ h₁ _ _ => yields_perform _ h₁

theorem yields_visitQuasis (heval : Evaluates given eval) (quasis : List (Option String × String))
    (expressions : List Expr) (hs : Traced given s) :
    Yields (Traced given) s (visitQuasis interpreter eval quasis expressions)
      fun _ _ => True := by
  induction quasis generalizing expressions s with
  | nil => exact Yields.pure hs trivial
  | cons quasi quasis ih =>
    cases expressions with
    | nil => exact (ih [] hs).bind fun _ s₁ h₁ _ _ => Yields.pure h₁ trivial
    | cons e expressions =>
      refine (yields_evaluateTemplateExpression heval e hs).bind fun value s₁ h₁ _ _ => ?_
      exact (ih expressions h₁).bind fun text s₂ h₂ _ _ => Yields.pure h₂ trivial

theorem yields_visitUnaryExpression (heval : Evaluates given eval) (operator : UnaryOperator)
    (argument : Expr) (hs : Traced given s) :
    Yields (Traced given) s (visitUnaryExpression interpreter eval operator argument)
      (Known given) := by
  refine (heval argument s hs).bind fun arg s₁ h₁ _ _ => ?_
  cases operator with
  | minus | plus =>
    exact (yields_perform _ h₁).bind fun p s₂ h₂ _ _ => Yields.pure h₂ (known_primitive p)
  | not | typeof | void => exact Yields.pure h₁ (known_primitive _)
  | other text => exact Yields.fail h₁ _

theorem yields_visitBinaryExpression (heval : Evaluates given eval) (operator : BinaryOperator)
    (left right : Expr) (hs : Traced given s) :
    Yields (Traced given) s (visitBinaryExpression interpreter eval operator left right)
      (Known given) := by
  refine (heval left s hs).bind fun l s₁ h₁ _ _ => ?_
  refine (heval right s₁ h₁).bind fun r s₂ h₂ _ _ => ?_
  have hbinary : ∀ operator, Yields (Traced given) s₂ (do
      let p ← perform interpreter (interpreter.engine.binary operator l r)
      pure (Value.primitive p)) (Known given) := fun operator =>
    (yields_perform _ h₂).bind fun p s₃ h₃ _ _ => Yields.pure h₃ (known_primitive p)
  cases operator with
  | add =>
    dsimp only
    split_ifs
    · refine (yields_perform _ h₂).bind fun leftText s₃ h₃ _ _ => ?_
      exact (yields_perform _ h₃).bind fun rightText s₄ h₄ _ _ =>
        Yields.pure h₄ (known_primitive _)
    · exact hbinary .add
  | strictEq | strictNe => exact Yields.pure h₂ (known_primitive _)
  | other text => exact Yields.fail h₂ _
  | _ => exact hbinary _

theorem yields_visitLogicalExpression (heval : Evaluates given eval) (operator : LogicalOperator)
    (left right : Expr) (hs : Traced given s) :
    Yields (Traced given) s (visitLogicalExpression eval operator left right) (Known given) := by
  refine (heval left s hs).bind fun l s₁ h₁ _ hl => ?_
  cases operator
  all_goals
    dsimp only
    split_ifs
    · first | exact heval right s₁ h₁ | exact Yields.pure h₁ hl
    · first | exact heval right s₁ h₁ | exact Yields.pure h₁ hl

/-- **One node**: every node type keeps the invariant when the expressions inside do. -/
theorem yields_evaluateNode (heval : Evaluates interpreter.given eval) :
    Evaluates interpreter.given (evaluateNode interpreter eval) := by
  intro node s hs
  refine Yields.bind (Q := fun _ _ => True) (Yields.lift hs fun _ _ => trivial) fun _ s₁ h₁ _ _ => ?_
  cases node with
  | callExpression callee arguments => exact yields_visitCallExpression heval callee arguments h₁
  | memberExpression object property computed =>
    exact yields_visitMemberExpression heval object property computed h₁
  | objectExpression properties => exact yields_visitObjectExpression heval properties h₁
  | arrayExpression elements => exact yields_visitArrayExpression heval elements h₁
  | identifier name => exact yields_visitIdentifier name h₁
  | literal v =>
    refine Yields.bind (Q := fun _ _ => True) ?_ fun _ s₂ h₂ _ _ => Yields.pure h₂ ?_
    · exact Yields.change (h₁.addMade _) (by cases v <;> exact List.Subset.refl _) trivial
    · cases v with
      | regex r text => exact known_object r
      | _ => exact known_primitive _
  | templateLiteral quasis expressions =>
    exact (yields_visitQuasis heval quasis expressions h₁).bind fun text s₂ h₂ _ _ =>
      Yields.pure h₂ (known_primitive _)
  | spreadElement argument => exact heval argument s₁ h₁
  | unaryExpression operator argument =>
    exact yields_visitUnaryExpression heval operator argument h₁
  | binaryExpression operator left right =>
    exact yields_visitBinaryExpression heval operator left right h₁
  | logicalExpression operator left right =>
    exact yields_visitLogicalExpression heval operator left right h₁
  | conditionalExpression test consequent alternate =>
    refine (heval test s₁ h₁).bind fun t s₂ h₂ _ _ => ?_
    split_ifs
    · exact heval consequent s₂ h₂
    · exact heval alternate s₂ h₂
  | assignmentExpression operator left right =>
    exact yields_visitAssignmentExpression heval operator left right h₁
  | super => exact Yields.fail h₁ _
  | other type => exact Yields.fail h₁ _

end Expressions

/-! ### Programs -/

section Programs

open Stateful

variable {interpreter : Interpreter H}

theorem yields_evaluateWithin (depth : ℕ) :
    Evaluates interpreter.given (evaluateWithin interpreter depth) := by
  induction depth with
  | zero => exact fun _ _ hs => Yields.fail hs _
  | succ depth ih => exact yields_evaluateNode ih

theorem yields_initialValue (init : Option Expr) (hs : Traced interpreter.given s) :
    Yields (Traced interpreter.given) s (initialValue interpreter init)
      (Known interpreter.given) := by
  cases init with
  | some e => exact yields_evaluateWithin _ e s hs
  | none => exact Yields.pure hs (known_primitive _)

theorem yields_setVariable (name : String) (hv : Known given v s) (hs : Traced given s) :
    Yields (Traced given) s (change (State.setVariable name v) : Eval H PUnit) fun _ _ => True :=
  Yields.change (hs.setVariable name hv) (List.Subset.refl _) trivial

theorem yields_visitDeclarator (declarator : Declarator) (hs : Traced interpreter.given s) :
    Yields (Traced interpreter.given) s (visitDeclarator interpreter declarator)
      fun _ _ => True := by
  unfold visitDeclarator
  cases declarator.name with
  | none => exact Yields.fail hs _
  | some name =>
    dsimp only
    split_ifs
    · refine Yields.bind (Q := fun _ _ => True) (Yields.reading hs trivial)
        fun safeName s₁ h₁ _ _ => ?_
      refine (yields_initialValue declarator.init h₁).bind fun value s₂ h₂ _ hvalue => ?_
      refine Yields.bind (Q := fun _ s' => Known interpreter.given value s') ?_
        fun _ s₃ h₃ _ hvalue => yields_setVariable safeName hvalue h₃
      exact Yields.change (h₂.setRenamed name safeName) (List.Subset.refl _) hvalue
    · exact Yields.fail hs _
    · exact (yields_initialValue declarator.init hs).bind fun value s₁ h₁ _ hvalue =>
        yields_setVariable name hvalue h₁

theorem yields_interpretFrom (result : Value) (body : Program) (hs : Traced interpreter.given s) :
    Yields (Traced interpreter.given) s (interpretFrom interpreter result body)
      fun _ _ => True := by
  induction body generalizing result s with
  | nil => exact Yields.pure hs trivial
  | cons stmt body ih =>
    refine Yields.bind (Q := fun _ _ => True) (Yields.lift hs fun _ _ => trivial)
      fun _ s₁ h₁ _ _ => ?_
    cases stmt with
    | variableDeclaration kind declarations =>
      have hdeclare : Yields (Traced interpreter.given) s₁
          (visitVariableDeclaration interpreter kind declarations) fun _ _ => True := by
        unfold visitVariableDeclaration
        split_ifs
        · exact Yields.fail h₁ _
        · exact Yields.each (fun d _ h => yields_visitDeclarator d h) declarations h₁
      exact hdeclare.bind fun _ s₂ h₂ _ _ => ih result h₂
    | expressionStatement expression =>
      exact (yields_evaluateWithin _ expression s₁ h₁).bind fun v s₂ h₂ _ _ => ih v h₂
    | exportDefaultDeclaration declaration =>
      exact (yields_evaluateWithin _ declaration s₁ h₁).any
    | other type => exact Yields.fail h₁ _

theorem traced_initial (heap : H) : Traced given ({ heap := heap } : State H) :=
  ⟨(fun _ _ h => by cases h), (fun _ _ h => by cases h), (fun _ _ _ h => by cases h),
    (fun _ h => by cases h)⟩

theorem traced_interpretSDKCode (interpreter : Interpreter H)
    (parse : String → Except String Program) (code : String) (heap : H) :
    Traced interpreter.given (interpretSDKCode interpreter parse code heap).2 := by
  unfold interpretSDKCode
  cases parse code with
  | error message => exact traced_initial heap
  | ok ast => exact (yields_interpretFrom .undefined ast (traced_initial heap)).keeps

/-! ### The theorem -/

theorem Confined.tight (h : Confined given s) : Tight given s where
  named _ _ hf _ := h.invocations _ hf
  inherited _ _ hf := h.invocations _ hf
  method _ _ hf := (h.invocations _ hf).resolve_right fun hsdk => Bool.false_ne_true hsdk.1
  substitute _ _ hf := h.invocations _ hf
  implicit _ hf := h.invocations _ hf
  spread _ hkey := h.reads _ hkey

theorem Traced.confined (h : Traced given s) (htight : Tight given s) : Confined given s where
  invocations i hi := by
    cases i with
    | named name f => exact (h.named name f hi).elim id (htight.named name f hi)
    | stringify => trivial
    | repeatText => trivial
    | inherited m f => exact htight.inherited m f hi
    | method fromSdk m f =>
      cases fromSdk with
      | true => exact .inr ⟨rfl, h.method true m f hi⟩
      | false => exact .inl (htight.method m f hi)
    | substitute f apply => exact htight.substitute f apply hi
    | implicit f => exact htight.implicit f hi
  reads r hr := by
    cases r with
    | member key => exact h.member key hr
    | spread key => exact htight.spread key hr

end Programs

end Confinement

/-! ### An inherited function -/

/-- The functions that every object has. -/
def objectMembers : List (String × Ref) :=
  [("constructor", 1), ("__defineGetter__", 2), ("__defineSetter__", 3), ("hasOwnProperty", 4),
    ("__lookupGetter__", 5), ("__lookupSetter__", 6), ("isPrototypeOf", 7),
    ("propertyIsEnumerable", 8), ("toString", 9), ("valueOf", 10), ("toLocaleString", 11)]

/-- An engine whose objects have no properties but the ones that every object has, and whose
functions answer like `toString` of `undefined`. -/
def plainEngine : Engine Unit where
  getProperty v key _ :=
    match v, key with
    | .function _, .name "apply" => .done (.ok (.function 0)) ()
    | _, .name s => .done (.ok ((objectMembers.lookup s).elim .undefined .function)) ()
    | _, _ => .done (.ok .undefined) ()
  setProperty _ _ _ _ := .done (.ok ()) ()
  ownKeys _ _ := []
  isArray _ _ := false
  items _ _ := .done (.ok []) ()
  newObject _ := (0, ())
  newArray _ _ := (0, ())
  toText _ _ := .done (.ok "[object Object]") ()
  unary _ _ _ := .done (.ok (.number .nan)) ()
  binary _ _ _ _ := .done (.ok (.number .nan)) ()
  apply _ _ _ _ := (.ok (.string "[object Undefined]"), ())
  stringify _ _ := (.ok .undefined, ())
  repeatText s _ _ := (.ok s, ())
  functionApply := 0
  literalText _ := ""
  literalJSON _ := .ok ""

def plainInterpreter : Interpreter Unit where
  engine := plainEngine
  sdkFunctions := Dict.ofList [("workflow", 20), ("node", 21), ("trigger", 22)]
  safeJSONMethods := 30
  safeStringMethods := 31
  sourceText _ := ""

/-- The tree of `'abc'.toString()`. -/
def parseToString (_ : String) : Except String Program :=
  .ok [.expressionStatement (.callExpression
    (.memberExpression (.literal (.string "abc")) (.identifier "toString") false) [])]

end AstInterpreter

end N8n
