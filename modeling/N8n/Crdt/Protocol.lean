import N8n.Lib.Utf8
import N8n.Lib.Except

/-!
# The worker protocol

Messages between a worker and the documents it serves (`packages/@n8n/crdt/src/protocol.ts`).  The
server sees `[type, ...payload]`, the worker `[type, length, length, ...docId, ...payload]` with the
length of the encoded id in two bytes.

* `encodeMessage`, `decodeMessage`, `encodeWithDocId`, `decodeWithDocId`, `stripDocId`, `addDocId`;
* `decodeWithDocId_encodeWithDocId`: what is decoded of any encoded message;
* `worker_roundTrip_iff`: the ids that come back.
-/

namespace N8n

/-! ### Texts and bytes -/

/-- `TextEncoder.encode`. -/
def textEncode (text : String) : List UInt8 := Utf8.encode text.toList

/-- The byte order mark. -/
def byteOrderMark : Char := Char.ofNat 0xfeff

/-- `TextDecoder.decode`, which leaves out a byte order mark at the beginning. -/
def textDecode (bytes : List UInt8) : String :=
  match Utf8.decode bytes with
  | [] => ""
  | c :: text => .ofList (if c = byteOrderMark then text else c :: text)

/-! ### Messages -/

structure ServerMessage where
  messageType : ℕ
  payload : List UInt8
  deriving DecidableEq

/-- `[messageType, ...payload]`; a byte array keeps the low byte of the type. -/
def encodeMessage (messageType : ℕ) (payload : List UInt8) : List UInt8 :=
  UInt8.ofNat messageType :: payload

def decodeMessage : List UInt8 → Except String ServerMessage
  | [] => .error "Empty message"
  | messageType :: payload => .ok ⟨messageType.toNat, payload⟩

structure WorkerMessage where
  messageType : ℕ
  docId : String
  payload : List UInt8
  deriving DecidableEq

/-- `[messageType, ...docIdLen, ...docId, ...payload]`.  Of the length the two low bytes are
written. -/
def encodeWithDocId (messageType : ℕ) (docId : String) (payload : List UInt8) : List UInt8 :=
  let docIdBytes := textEncode docId
  let docIdLen := docIdBytes.length
  UInt8.ofNat messageType :: UInt8.ofNat ((docIdLen >>> 8) &&& 0xff) ::
    UInt8.ofNat (docIdLen &&& 0xff) :: (docIdBytes ++ payload)

def decodeWithDocId : List UInt8 → Except String WorkerMessage
  | messageType :: high :: low :: data =>
    let docIdLen := (high.toNat <<< 8) ||| low.toNat
    if data.length < docIdLen then .error "Message too short for declared docId length"
    else .ok ⟨messageType.toNat, textDecode (data.take docIdLen), data.drop docIdLen⟩
  | _ => .error "Message too short to contain docId"

/-- From the worker's format to the server's. -/
def stripDocId (data : List UInt8) : Except String (List UInt8) := do
  let message ← decodeWithDocId data
  return encodeMessage message.messageType message.payload

/-- From the server's format to the worker's. -/
def addDocId (docId : String) (data : List UInt8) : Except String (List UInt8) := do
  let message ← decodeMessage data
  return encodeWithDocId message.messageType docId message.payload

/-! ### Round trips -/

/-- The decoder gives a text back unless it begins with a byte order mark. -/
theorem textDecode_textEncode_iff (text : String) :
    textDecode (textEncode text) = text ↔ text.toList.head? ≠ some byteOrderMark := by
  rw [textDecode, textEncode, Utf8.decode_encode, ← String.toList_inj]
  cases htext : text.toList with
  | nil => simp
  | cons c cs =>
    by_cases hc : c = byteOrderMark
    · simp [hc]
    · simp [hc]

/-- The length that is read is the one that was written, but for what does not fit. -/
theorem docIdLen_eq (n : ℕ) :
    ((UInt8.ofNat ((n >>> 8) &&& 0xff)).toNat <<< 8) ||| (UInt8.ofNat (n &&& 0xff)).toNat =
      n % 65536 := by
  have hmask : ∀ m, (UInt8.ofNat (m &&& 0xff)).toNat = m % 256 := fun m => by
    have hand : m &&& 0xff = m % 256 := Nat.and_two_pow_sub_one_eq_mod m 8
    rw [hand, Utf8.Decoder.toNat_ofNat (Nat.mod_lt _ (by norm_num))]
  have hlow : n % 256 < 2 ^ 8 := Nat.mod_lt _ (by norm_num)
  rw [hmask, hmask, ← Nat.shiftLeft_add_eq_or_of_lt hlow, Nat.shiftLeft_eq, Nat.shiftRight_eq_div_pow]
  omega

/-- **What is decoded of an encoded message**: as much of the id as its length says, and the rest as
payload. -/
theorem decodeWithDocId_encodeWithDocId (messageType : ℕ) (docId : String) (payload : List UInt8) :
    decodeWithDocId (encodeWithDocId messageType docId payload) = .ok
      { messageType := messageType % 256
        docId := textDecode ((textEncode docId).take ((textEncode docId).length % 65536))
        payload := (textEncode docId).drop ((textEncode docId).length % 65536) ++ payload } := by
  have hle : (textEncode docId).length % 65536 ≤ (textEncode docId).length := Nat.mod_le _ _
  have hfits : ¬(textEncode docId ++ payload).length < (textEncode docId).length % 65536 := by
    rw [List.length_append]
    omega
  simp only [decodeWithDocId, encodeWithDocId, docIdLen_eq]
  rw [if_neg hfits, List.take_append_of_le_length hle, List.drop_append_of_le_length hle]
  rfl

/-- The payload comes back when the length fits its two bytes. -/
theorem drop_append_eq_iff (bytes payload : List UInt8) :
    bytes.drop (bytes.length % 65536) ++ payload = payload ↔ bytes.length < 65536 := by
  rw [List.append_left_eq_self, List.drop_eq_nil_iff]
  omega

/-- A message comes back whole: its type, its id and its payload. -/
def ComesBack (messageType : ℕ) (docId : String) (payload : List UInt8) : Prop :=
  decodeWithDocId (encodeWithDocId messageType docId payload) = .ok ⟨messageType, docId, payload⟩

/-- A message of the server passes the worker's format unchanged. -/
def PassesWorker (docId : String) (data : List UInt8) : Prop :=
  addDocId docId data >>= stripDocId = .ok data

theorem comesBack_iff {messageType : ℕ} (htype : messageType < 256) (docId : String)
    (payload : List UInt8) : ComesBack messageType docId payload ↔
      (textEncode docId).length < 65536 ∧ docId.toList.head? ≠ some byteOrderMark := by
  rw [ComesBack, decodeWithDocId_encodeWithDocId, Except.ok.injEq, WorkerMessage.mk.injEq,
    drop_append_eq_iff, ← textDecode_textEncode_iff]
  constructor
  · rintro ⟨-, hdocId, hlength⟩
    rw [Nat.mod_eq_of_lt hlength, List.take_length] at hdocId
    exact ⟨hlength, hdocId⟩
  · rintro ⟨hlength, hdocId⟩
    rw [Nat.mod_eq_of_lt hlength, List.take_length]
    exact ⟨Nat.mod_eq_of_lt htype, hdocId, hlength⟩

theorem passesWorker_iff (docId : String) {data : List UInt8} (hdata : data ≠ []) :
    PassesWorker docId data ↔ (textEncode docId).length < 65536 := by
  cases data with
  | nil => exact absurd rfl hdata
  | cons messageType payload =>
    have hstrip : addDocId docId (messageType :: payload) >>= stripDocId = .ok (messageType ::
        ((textEncode docId).drop ((textEncode docId).length % 65536) ++ payload)) := by
      change stripDocId (encodeWithDocId messageType.toNat docId payload) = _
      rw [stripDocId, decodeWithDocId_encodeWithDocId]
      change Except.ok (encodeMessage (messageType.toNat % 256) _) = _
      rw [encodeMessage, Nat.mod_eq_of_lt messageType.toNat_lt, UInt8.ofNat_toNat]
    rw [PassesWorker, hstrip, Except.ok.injEq, List.cons.injEq, drop_append_eq_iff]
    exact and_iff_right rfl

/-- **Which ids the codec keeps**: those whose encoded form is shorter than 65536 bytes and that do
not begin with a byte order mark; for the messages of the server the length is enough. -/
theorem worker_roundTrip_iff (docId : String) :
    (∀ messageType < 256, ∀ payload, ComesBack messageType docId payload ↔
      (textEncode docId).length < 65536 ∧ docId.toList.head? ≠ some byteOrderMark) ∧
    ∀ data ≠ [], PassesWorker docId data ↔ (textEncode docId).length < 65536 :=
  ⟨fun _ htype payload => comesBack_iff htype docId payload,
    fun _ hdata => passesWorker_iff docId hdata⟩

theorem worker_roundTrip_iff_doc : ComesBack 0 "doc-ä" [1, 2] ∧ PassesWorker "doc-ä" [6, 1] :=
  ⟨((worker_roundTrip_iff "doc-ä").1 0 (by decide) [1, 2]).2 ⟨by decide, by decide⟩,
    ((worker_roundTrip_iff "doc-ä").2 [6, 1] (by decide)).2 (by decide)⟩

theorem textEncode_replicate (n : ℕ) :
    textEncode (.ofList (List.replicate n 'a')) = List.replicate n 97 := by
  rw [textEncode, String.toList_ofList]
  induction n with
  | zero => rfl
  | succ n ih => rw [List.replicate_succ, Utf8.encode_cons, ih, List.replicate_succ]; rfl

/-- An id of 65536 bytes is decoded as the empty one, with the id in the payload; and a byte order
mark is lost. -/
theorem worker_roundTrip_long_id :
    decodeWithDocId (encodeWithDocId 0 (.ofList (List.replicate 65536 'a')) []) =
      .ok ⟨0, "", List.replicate 65536 97⟩ ∧
    ¬ComesBack 0 (.ofList (List.replicate 65536 'a')) [] ∧
    ¬PassesWorker (.ofList (List.replicate 65536 'a')) [0] ∧
    ¬ComesBack 0 (.ofList [byteOrderMark, 'a']) [] := by
  have hlength : ¬(textEncode (.ofList (List.replicate 65536 'a'))).length < 65536 := by
    rw [textEncode_replicate, List.length_replicate]
    exact lt_irrefl _
  refine ⟨?_, fun h => hlength ((comesBack_iff (by decide) _ _).1 h).1,
    fun h => hlength ((passesWorker_iff _ (by decide)).1 h), fun h => ?_⟩
  · rw [decodeWithDocId_encodeWithDocId, textEncode_replicate, List.length_replicate, Nat.mod_self,
      List.take_zero, List.drop_zero, List.append_nil]
    rfl
  · exact ((comesBack_iff (by decide) _ _).1 h).2 (by rw [String.toList_ofList]; rfl)

end N8n
