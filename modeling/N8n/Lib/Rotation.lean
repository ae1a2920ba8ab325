import Mathlib.Data.List.Chain
import Mathlib.Data.List.TakeWhile

/-!
# Queues whose elements are sent back

A queue is served from its front.  The element in front is dropped, or sent back to the end, and the
key of the last element sent back is remembered: an element with that key is not served.

* `Queue`: which elements are dropped and which are sent back;
* `Queue.GoesRound`: all elements are dropped or sent back, and no two that are sent back one after
  the other have the same key;
* `Queue.forever_iff`: then the queue is served forever, and only then it is served once more than it
  has elements;
* `Queue.key_eq_of_served`: otherwise the element in front, after each has been served, has the key
  that is remembered.
-/

universe u v

/-- What happens to the elements of a queue; an element that is sent back may change, but not its
key, and it is sent back again. -/
structure Queue (α : Type u) (κ : Type v) where
  key : α → κ
  drops : α → Bool
  sends : α → α → Prop
  key_sent : ∀ {a b}, sends a b → key b = key a
  sends_sent : ∀ {a b}, sends a b → ∃ c, sends b c
  key_ne_key : ∀ {a b c}, drops a = true → sends b c → key a ≠ key b

namespace Queue

variable {α : Type u} {κ : Type v} (q : Queue α κ)

/-- The element in front is served; the second component is the key that is remembered. -/
inductive Serve : List α × κ → List α × κ → Prop
  | drop {a : α} {l : List α} {last : κ} (hkey : q.key a ≠ last) (hdrops : q.drops a = true) :
    Serve (a :: l, last) (l, last)
  | send {a b : α} {l : List α} {last : κ} (hkey : q.key a ≠ last) (hsends : q.sends a b) :
    Serve (a :: l, last) (l ++ [b], q.key a)

/-- The keys of the elements that are not dropped. -/
def sentKeys (l : List α) : List κ := (l.filter (!q.drops ·)).map q.key

/-- Every element is dropped or sent back, and each that is sent back has another key than the one
before it, the first of them another one than the last. -/
structure GoesRound (l : List α) (last : κ) : Prop where
  served : ∀ a ∈ l, q.drops a = true ∨ ∃ b, q.sends a b
  dropped : ∀ a ∈ l.takeWhile q.drops, q.key a ≠ last
  chain : (last :: q.sentKeys l).IsChain (· ≠ ·)
  around : (q.sentKeys l).head? ≠ (q.sentKeys l).getLast?

variable {q} {l m : List α} {a b : α} {last : κ}

theorem drops_eq_false (h : q.sends a b) : q.drops a = false :=
  Bool.eq_false_iff.2 fun hdrops => q.key_ne_key hdrops h rfl

theorem drops_sent (h : q.sends a b) : q.drops b = false :=
  have ⟨_, hc⟩ := q.sends_sent h
  drops_eq_false hc

theorem sentKeys_cons_of_drops (h : q.drops a = true) : q.sentKeys (a :: l) = q.sentKeys l := by
  simp [sentKeys, h]

theorem sentKeys_cons_of_sends (h : q.sends a b) :
    q.sentKeys (a :: l) = q.key a :: q.sentKeys l := by
  simp [sentKeys, drops_eq_false h]

theorem sentKeys_concat_sent (h : q.sends a b) :
    q.sentKeys (l ++ [b]) = q.sentKeys l ++ [q.key a] := by
  simp [sentKeys, drops_sent h, q.key_sent h]

/-! ### Served forever -/

/-- **A queue that goes round can be served, and goes round afterwards.** -/
theorem GoesRound.exists_serve (h : q.GoesRound l last) :
    ∃ s, q.Serve (l, last) s ∧ q.GoesRound s.1 s.2 := by
  cases l with
  | nil => exact absurd rfl h.around
  | cons a l =>
    obtain ⟨hserved, hdropped, hchain, haround⟩ := h
    have hserved' := fun c hc => hserved c (List.mem_cons_of_mem _ hc)
    rcases hserved a List.mem_cons_self with hdrops | ⟨b, hsends⟩
    · rw [sentKeys_cons_of_drops hdrops] at hchain haround
      rw [List.takeWhile_cons_of_pos hdrops] at hdropped
      refine ⟨_, .drop (hdropped a List.mem_cons_self) hdrops, hserved', ?_, hchain, haround⟩
      exact fun c hc => hdropped c (List.mem_cons_of_mem _ hc)
    · rw [sentKeys_cons_of_sends hsends] at hchain haround
      obtain ⟨hkey, hchain⟩ := List.isChain_cons_cons.1 hchain
      refine ⟨_, .send hkey.symm hsends, ?_, ?_, ?_, ?_⟩
      · intro c hc
        rcases List.mem_append.1 hc with hc | hc
        · exact hserved' c hc
        · exact Or.inr (List.mem_singleton.1 hc ▸ q.sends_sent hsends)
      · exact fun c hc => q.key_ne_key (List.mem_takeWhile_imp hc) hsends
      · rw [sentKeys_concat_sent hsends, ← List.cons_append]
        refine List.isChain_append.2 ⟨hchain, List.isChain_singleton _, ?_⟩
        rintro k hk k' hk' rfl
        obtain rfl : q.key a = k := by simpa using hk'
        exact haround (by rw [List.head?_cons]; exact hk.symm)
      · rw [sentKeys_concat_sent hsends, List.getLast?_concat]
        cases hkeys : q.sentKeys l with
        | nil => exact absurd (by rw [hkeys]; rfl) haround
        | cons k ks =>
          rw [hkeys] at hchain
          rintro ⟨⟩
          exact (List.isChain_cons_cons.1 hchain).1 rfl

theorem GoesRound.forever (h : q.GoesRound l last) :
    ∃ f : ℕ → List α × κ, f 0 = (l, last) ∧ ∀ n, q.Serve (f n) (f (n + 1)) := by
  let State := { s : List α × κ // q.GoesRound s.1 s.2 }
  have hnext : ∀ s : State, ∃ s' : State, q.Serve s.1 s'.1 := fun s =>
    have ⟨s', hserve, hround⟩ := s.2.exists_serve
    ⟨⟨s', hround⟩, hserve⟩
  choose next hserve using hnext
  refine ⟨fun n => (next^[n] ⟨(l, last), h⟩).1, rfl, fun n => ?_⟩
  show q.Serve _ (next^[n + 1] ⟨(l, last), h⟩).1
  rw [Function.iterate_succ_apply']
  exact hserve _

/-! ### Each element served once -/

/-- The elements of a queue are served one after the other; some of them come back. -/
inductive Passes (q : Queue α κ) : List α → κ → List α → κ → Prop
  | nil (last : κ) : Passes q [] last [] last
  | drop {a : α} {l back : List α} {last last' : κ} (hkey : q.key a ≠ last)
    (hdrops : q.drops a = true) (h : Passes q l last back last') : Passes q (a :: l) last back last'
  | send {a b : α} {l back : List α} {last last' : κ} (hkey : q.key a ≠ last)
    (hsends : q.sends a b) (h : Passes q l (q.key a) back last') :
    Passes q (a :: l) last (b :: back) last'

theorem passes_of_serve {f : ℕ → List α × κ} (h₀ : f 0 = (l ++ m, last))
    (h : ∀ n < l.length, q.Serve (f n) (f (n + 1))) :
    ∃ back last', q.Passes l last back last' ∧ f l.length = (m ++ back, last') := by
  induction l generalizing f m last with
  | nil => exact ⟨[], last, .nil last, by rw [List.append_nil]; exact h₀⟩
  | cons a l ih =>
    have hfirst := h 0 (Nat.succ_pos _)
    have hrest : ∀ n < l.length, q.Serve (f (n + 1)) (f (n + 1 + 1)) := fun n hn =>
      h (n + 1) (Nat.succ_lt_succ hn)
    rw [h₀] at hfirst
    generalize h₁ : f (0 + 1) = s at hfirst
    cases hfirst with
    | drop hkey hdrops =>
      obtain ⟨back, last', hpasses, hend⟩ := ih (f := fun n => f (n + 1)) h₁ hrest
      exact ⟨back, last', .drop hkey hdrops hpasses, hend⟩
    | @send _ b _ _ hkey hsends =>
      rw [List.append_eq, List.append_assoc] at h₁
      obtain ⟨back, last', hpasses, hend⟩ := ih (f := fun n => f (n + 1)) h₁ hrest
      refine ⟨b :: back, last', .send hkey hsends hpasses, ?_⟩
      rw [List.append_assoc] at hend
      exact hend

namespace Passes

variable {back : List α} {last' : κ}

theorem served (h : q.Passes l last back last') : ∀ a ∈ l, q.drops a = true ∨ ∃ b, q.sends a b := by
  induction h with
  | nil => exact fun a ha => absurd ha List.not_mem_nil
  | drop hkey hdrops h ih => exact List.forall_mem_cons.2 ⟨Or.inl hdrops, ih⟩
  | send hkey hsends h ih => exact List.forall_mem_cons.2 ⟨Or.inr ⟨_, hsends⟩, ih⟩

theorem dropped (h : q.Passes l last back last') : ∀ a ∈ l.takeWhile q.drops, q.key a ≠ last := by
  induction h with
  | nil => exact fun a ha => absurd ha List.not_mem_nil
  | drop hkey hdrops h ih =>
    rw [List.takeWhile_cons_of_pos hdrops]
    exact List.forall_mem_cons.2 ⟨hkey, ih⟩
  | send hkey hsends h ih =>
    rw [List.takeWhile_cons_of_neg (by rw [drops_eq_false hsends]; decide)]
    exact fun a ha => absurd ha List.not_mem_nil

theorem chain (h : q.Passes l last back last') : (last :: q.sentKeys l).IsChain (· ≠ ·) := by
  induction h with
  | nil => exact List.isChain_singleton _
  | drop hkey hdrops h ih => rwa [sentKeys_cons_of_drops hdrops]
  | send hkey hsends h ih =>
    rw [sentKeys_cons_of_sends hsends]
    exact List.isChain_cons_cons.2 ⟨hkey.symm, ih⟩

theorem map_key (h : q.Passes l last back last') : back.map q.key = q.sentKeys l := by
  induction h with
  | nil => rfl
  | drop hkey hdrops h ih => rw [sentKeys_cons_of_drops hdrops, ih]
  | send hkey hsends h ih =>
    rw [sentKeys_cons_of_sends hsends, List.map_cons, q.key_sent hsends, ih]

theorem last_eq (h : q.Passes l last back last') : last' = (q.sentKeys l).getLastD last := by
  induction h with
  | nil => rfl
  | drop hkey hdrops h ih => rw [sentKeys_cons_of_drops hdrops, ih]
  | send hkey hsends h ih => rw [sentKeys_cons_of_sends hsends, List.getLastD_cons, ih]

theorem sends_again (h : q.Passes l last back last') : ∀ b ∈ back, ∃ c, q.sends b c := by
  induction h with
  | nil => exact fun b hb => absurd hb List.not_mem_nil
  | drop hkey hdrops h ih => exact ih
  | send hkey hsends h ih => exact List.forall_mem_cons.2 ⟨q.sends_sent hsends, ih⟩

/-- After each element was served, the one in front has the key that is remembered, unless the queue
goes round. -/
theorem goesRound_iff (h : q.Passes l last (b :: back) last') :
    q.GoesRound l last ↔ q.key b ≠ last' := by
  have hkeys := h.map_key
  have hround : (q.sentKeys l).head? ≠ (q.sentKeys l).getLast? ↔ q.key b ≠ last' := by
    rw [h.last_eq, ← hkeys, List.map_cons, List.head?_cons, List.getLast?_cons,
      List.getLastD_cons, List.getLastD_eq_getLast?]
    simp
  exact ⟨fun hgoes => hround.1 hgoes.around,
    fun hne => ⟨h.served, h.dropped, h.chain, hround.2 hne⟩⟩

end Passes

/-- **A queue is served forever exactly when it goes round.** -/
theorem forever_iff : (∃ f : ℕ → List α × κ, f 0 = (l, last) ∧ ∀ n, q.Serve (f n) (f (n + 1))) ↔
    q.GoesRound l last := by
  constructor
  · rintro ⟨f, h₀, h⟩
    rw [← List.append_nil l] at h₀
    obtain ⟨back, last', hpasses, hend⟩ := passes_of_serve h₀ fun n _ => h n
    have hnext := h l.length
    rw [hend, List.nil_append] at hnext
    generalize f (l.length + 1) = s at hnext
    cases hnext with
    | drop hkey hdrops => exact hpasses.goesRound_iff.2 hkey
    | send hkey hsends => exact hpasses.goesRound_iff.2 hkey
  · exact GoesRound.forever

/-- **When each element of a queue that does not go round was served**, the one in front is one that
would be sent back, and has the key that is remembered. -/
theorem key_eq_of_served {f : ℕ → List α × κ} (h₀ : f 0 = (l, last))
    (h : ∀ n < l.length, q.Serve (f n) (f (n + 1))) (hround : ¬q.GoesRound l last)
    (hfront : (f l.length).1.head? = some a) : (∃ b, q.sends a b) ∧ q.key a = (f l.length).2 := by
  rw [← List.append_nil l] at h₀
  obtain ⟨back, last', hpasses, hend⟩ := passes_of_serve h₀ h
  rw [hend, List.nil_append] at hfront ⊢
  cases back with
  | nil => cases hfront
  | cons b back =>
    cases hfront
    exact ⟨hpasses.sends_again _ List.mem_cons_self,
      not_not.1 fun hne => hround (hpasses.goesRound_iff.2 hne)⟩

end Queue
