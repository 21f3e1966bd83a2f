import MutexIM.Codec.Messages

/-!
# The checks of a frame

`onMessage` compares the length field with the size of the string, `IsCorrect` the checksum with the
bytes before it, and `Decode` the name length with the length. Lengths are unsigned 32-bit numbers and
come from the peer.

* `onMessage_damaged`: a frame with one byte changed, before its last two, is not decoded.
* `decodeChecked` is `decode` with every subtraction and every access checked; `decodeChecked_eq`: no
  check fails when `onMessage` calls `Decode`.
-/

namespace MutexIM.Codec

open Bytes Adler32

variable {P : Pool}

/-! ## Damaged frames -/

/-- What is decoded passed the tests of the length and of the checksum. -/
theorem checks_of_onMessage {s : Bytes} {m : P.Msg} (h : onMessage P s = some (some m)) :
    LengthOk s ∧ isCorrect (s.drop kHeaderLen) (peekUInt32 s) = true := by
  by_cases hok : LengthOk s
  · refine ⟨hok, ?_⟩
    rw [onMessage_of_lengthOk P hok, Option.some.injEq] at h
    by_contra hcorrect
    rw [decode, if_neg hcorrect] at h
    cases h
  · rw [onMessage_of_not_lengthOk P hok] at h
    cases h

/-- The number at the beginning of a string tells its first four bytes. -/
theorem take_eq_of_peek32_eq {s s' : Bytes} (hs : 4 ≤ s.length) (hs' : 4 ≤ s'.length)
    (h : peek32 s = peek32 s') : s.take 4 = s'.take 4 := by
  have htake : ∀ {t : Bytes}, 4 ≤ t.length → t.take 4 = be32 (peek32 t) := by
    intro t ht
    conv_lhs => rw [eq_be32_append ht]
    exact List.take_left' (length_be32 _)
  rw [htake hs, htake hs', h]

/-- Strings that differ in one byte before the position `n` have different beginnings up to there. -/
theorem take_ne_of_lt {x y : Bytes} {c d : UInt8} (hne : c ≠ d) {n : ℕ} (hn : x.length < n) :
    (x ++ c :: y).take n ≠ (x ++ d :: y).take n := by
  intro heq
  have hbyte := congrArg (·[x.length]?) heq
  simp only [List.getElem?_take_of_lt hn, List.getElem?_append_right le_rfl, Nat.sub_self,
    List.getElem?_cons_zero, Option.some.injEq] at hbyte
  exact hne hbyte

/-- A changed byte before the checksum, or in it, makes the checksum wrong. -/
theorem not_isCorrect_of_damaged {x y : Bytes} {c d : UInt8} (hne : c ≠ d) {len : ℕ}
    (hmin : kHeaderLen ≤ len) (hlen : len ≤ (x ++ c :: y).length) (hx : x.length < len)
    (hc : isCorrect (x ++ c :: y) len = true) : isCorrect (x ++ d :: y) len = false := by
  rw [isCorrect, decide_eq_true_iff] at hc
  rw [isCorrect, decide_eq_false_iff_not]
  intro hd
  by_cases hbody : x.length < len - kHeaderLen
  · -- the sums differ, and the checksum is that of the frame
    have htake : ∀ b : UInt8, (x ++ b :: y).take (len - kHeaderLen) =
        x ++ b :: y.take (len - kHeaderLen - x.length - 1) := by
      intro b
      rw [List.take_append, List.take_of_length_le hbody.le,
        show len - kHeaderLen - x.length = len - kHeaderLen - x.length - 1 + 1 by omega,
        List.take_succ_cons, Nat.add_sub_cancel]
    have hdrop : (x ++ c :: y).drop (len - kHeaderLen) = (x ++ d :: y).drop (len - kHeaderLen) := by
      rw [List.drop_append, List.drop_append,
        show len - kHeaderLen - x.length = len - kHeaderLen - x.length - 1 + 1 by omega,
        List.drop_succ_cons, List.drop_succ_cons]
    rw [hdrop, hd, htake, htake] at hc
    exact adler32_ne hne 1 hc.symm
  · -- the sums are equal, and the checksum differs
    have hle : len - kHeaderLen ≤ x.length := Nat.le_of_not_lt hbody
    rw [List.take_append_of_le_length hle] at hc hd
    rw [← hc, List.drop_append_of_le_length hle, List.drop_append_of_le_length hle] at hd
    have hdrop : (x.drop (len - kHeaderLen)).length = x.length - (len - kHeaderLen) :=
      List.length_drop
    have hfour : ∀ b : UInt8, 4 ≤ (x.drop (len - kHeaderLen) ++ b :: y).length := by
      intro b
      simp only [List.length_append, List.length_cons, hdrop] at hlen ⊢
      unfold kHeaderLen at *
      omega
    have htake := take_eq_of_peek32_eq (hfour d) (hfour c) hd
    unfold kHeaderLen at *
    exact take_ne_of_lt (Ne.symm hne) (by omega) htake

/-- **A single damaged byte is caught.** A string from which a message is decoded, with one byte
changed at a position before the last two, is not decoded. -/
theorem onMessage_damaged {x y : Bytes} {c d : UInt8} (hne : c ≠ d) (hy : 2 ≤ y.length) {m : P.Msg}
    (h : onMessage P (x ++ c :: y) = some (some m)) (m' : P.Msg) :
    onMessage P (x ++ d :: y) ≠ some (some m') := by
  intro h'
  obtain ⟨hok, hc⟩ := checks_of_onMessage h
  obtain ⟨hok', hd⟩ := checks_of_onMessage h'
  have hlen := hok.length_eq
  have hlen' := hok'.length_eq
  simp only [List.length_append, List.length_cons] at hlen hlen'
  have hpeek : peekUInt32 (x ++ c :: y) = peekUInt32 (x ++ d :: y) := by omega
  by_cases hfield : x.length < kHeaderLen
  · -- the length field has changed, but not the size of the string
    have hmin : 10 < peekUInt32 (x ++ c :: y) := hok.min_lt
    have hlong : ∀ b, 4 ≤ (x ++ b :: y).length := fun b => by
      simp only [List.length_append, List.length_cons]
      omega
    have htake := take_eq_of_peek32_eq (hlong c) (hlong d) hpeek
    exact take_ne_of_lt hne hfield htake
  · have hle : kHeaderLen ≤ x.length := Nat.le_of_not_lt hfield
    have hmin : 10 < peekUInt32 (x ++ c :: y) := hok.min_lt
    rw [List.drop_append_of_le_length hle] at hc hd
    rw [← hpeek, not_isCorrect_of_damaged hne ?_ ?_ ?_ hc] at hd
    · cases hd
    all_goals
      simp only [List.length_append, List.length_cons, List.length_drop, kHeaderLen]
      omega

/-- A request for the stored messages of the user `1`. -/
def unreadRequest : chatPool.Msg := ⟨.unreadMsgRequest { userId := ascii "1", timestamp := 0 }, by decide⟩

/-- A letter of the type name is changed from `d` to `e`. -/
theorem onMessage_damaged_name :
    onMessage chatPool ((encoded chatPool unreadRequest).take 20 ++ 101 ::
      (encoded chatPool unreadRequest).drop 21) ≠ some (some unreadRequest) := by
  have hframe : FrameFor chatPool (encoded chatPool unreadRequest) unreadRequest :=
    frameFor_encoded (by decide +kernel) (by decide +kernel)
  have hsplit : encoded chatPool unreadRequest = (encoded chatPool unreadRequest).take 20 ++ 100 ::
      (encoded chatPool unreadRequest).drop 21 := by decide +kernel
  rw [← onMessage_eq_some_some_iff, hsplit] at hframe
  exact onMessage_damaged (by decide) (by decide +kernel) hframe unreadRequest

/-! ## The decoder with its checks -/

/-- Unsigned subtraction that does not wrap. -/
def checkedSub (a b : ℕ) : Option ℕ := if b ≤ a then some (a - b) else none

/-- The `n` bytes from `off`, which have to be among the first `len` of the buffer. -/
def checkedRead (buf : Bytes) (len off n : ℕ) : Option Bytes :=
  if off + n ≤ len ∧ len ≤ buf.length then some ((buf.drop off).take n) else none

/-- A length that is not negative as an `int32_t`. -/
def checkedInt32 (n : ℕ) : Option ℕ := if n < 2 ^ 31 then some n else none

/-- `ProtobufCodec::IsCorrect`, checked. -/
def isCorrectChecked (buf : Bytes) (len : ℕ) : Option Bool := do
  let len ← checkedInt32 len
  let n ← checkedSub len kHeaderLen
  let expectedCheckSum ← checkedRead buf len n kHeaderLen
  let body ← checkedRead buf len 0 n
  return peekUInt32 expectedCheckSum = adler32 1 body

/-- The payload behind the type name, checked and parsed. -/
def parseChecked (P : Pool) (d : P.Desc) (buf : Bytes) (len nameLen : ℕ) : Option (Option P.Msg) := do
  let rest ← checkedSub len nameLen
  let dataLen ← checkedSub rest (2 * kHeaderLen)
  let dataLen ← checkedInt32 dataLen
  let data ← checkedRead buf len (kHeaderLen + nameLen) dataLen
  return P.parseFromArray d data

/-- `ProtobufCodec::Decode`, checked: `none` when a subtraction wraps, an access is outside the `len`
bytes, or a length is negative. -/
def decodeChecked (P : Pool) (buf : Bytes) (len : ℕ) : Option (Option P.Msg) := do
  if ← isCorrectChecked buf len then
    let nameLen := peekUInt32 (← checkedRead buf len 0 kHeaderLen)
    let maxLen ← checkedSub len (2 * kHeaderLen)
    if 2 ≤ nameLen ∧ nameLen ≤ maxLen then
      let typeName ← checkedRead buf len kHeaderLen (nameLen - 1)
      match P.findMessageTypeByName typeName with
      | some d => parseChecked P d buf len nameLen
      | none => return none
    else return none
  else return none

theorem checkedSub_of_le {a b : ℕ} (h : b ≤ a) : checkedSub a b = some (a - b) := if_pos h

theorem checkedRead_of_le {buf : Bytes} {len off n : ℕ} (h : off + n ≤ len) (hlen : len ≤ buf.length) :
    checkedRead buf len off n = some ((buf.drop off).take n) := if_pos ⟨h, hlen⟩

theorem checkedInt32_of_lt {n : ℕ} (h : n < 2 ^ 31) : checkedInt32 n = some n := if_pos h

/-- Only four bytes are peeked. -/
theorem peek32_take (s : Bytes) : peek32 (s.take 4) = peek32 s := by
  have hget : ∀ i < 4, (s.take 4).getD i 0 = s.getD i 0 := by
    intro i hi
    rw [List.getD_eq_getElem?_getD, List.getElem?_take_of_lt hi, List.getD_eq_getElem?_getD]
  simp only [peek32, hget 0 (by decide), hget 1 (by decide), hget 2 (by decide), hget 3 (by decide)]

variable {buf : Bytes} {len : ℕ}

/-- The checksum's bounds: no check of `IsCorrect` fails. -/
theorem isCorrectChecked_eq (hmin : kHeaderLen ≤ len) (hmax : len < 2 ^ 31) (hlen : len ≤ buf.length) :
    isCorrectChecked buf len = some (isCorrect buf len) := by
  have hsum : len - kHeaderLen + kHeaderLen ≤ len := by omega
  have hbody : 0 + (len - kHeaderLen) ≤ len := by omega
  have hpeek : peekUInt32 ((buf.drop (len - kHeaderLen)).take kHeaderLen) =
      peekUInt32 (buf.drop (len - kHeaderLen)) := peek32_take _
  simp only [isCorrectChecked, checkedInt32_of_lt hmax, checkedSub_of_le hmin,
    checkedRead_of_le hsum hlen, checkedRead_of_le hbody hlen, Option.bind_eq_bind, Option.bind_some,
    Option.pure_def, hpeek, isCorrect, List.drop_zero]

/-- The payload's bounds: what is left between the name and the checksum. -/
theorem parseChecked_eq (P : Pool) (d : P.Desc) {nameLen : ℕ} (hmin : 2 * kHeaderLen ≤ len)
    (hmax : len < 2 ^ 31) (hlen : len ≤ buf.length) (hname : nameLen ≤ len - 2 * kHeaderLen) :
    parseChecked P d buf len nameLen = some (P.parseFromArray d
      ((buf.drop (kHeaderLen + nameLen)).take (sub32 (sub32 len nameLen) (2 * kHeaderLen)))) := by
  have hle : nameLen ≤ len := by omega
  have hle' : 2 * kHeaderLen ≤ len - nameLen := by omega
  have hsigned : len - nameLen - 2 * kHeaderLen < 2 ^ 31 := by omega
  have hread : kHeaderLen + nameLen + (len - nameLen - 2 * kHeaderLen) ≤ len := by
    unfold kHeaderLen at *
    omega
  have hdataLen : sub32 (sub32 len nameLen) (2 * kHeaderLen) = len - nameLen - 2 * kHeaderLen := by
    rw [sub32_of_le (by omega) hle, sub32_of_le (by omega) hle']
  rw [hdataLen]
  simp only [parseChecked, checkedSub_of_le hle, checkedSub_of_le hle', checkedInt32_of_lt hsigned,
    checkedRead_of_le hread hlen, Option.bind_eq_bind, Option.bind_some, Option.pure_def]

/-- **No check of `Decode` fails** for a length of at least eight bytes that the buffer has. -/
theorem decodeChecked_eq (P : Pool) (hmin : 2 * kHeaderLen ≤ len) (hmax : len < 2 ^ 31)
    (hlen : len ≤ buf.length) : decodeChecked P buf len = some (decode P buf len) := by
  have hhead : kHeaderLen ≤ len := by unfold kHeaderLen at *; omega
  have hname : 0 + kHeaderLen ≤ len := by omega
  have hpeek : peekUInt32 ((buf.drop 0).take kHeaderLen) = peekUInt32 buf := peek32_take buf
  have hmaxLen : sub32 len (2 * kHeaderLen) = len - 2 * kHeaderLen := sub32_of_le (by omega) hmin
  rw [decodeChecked, isCorrectChecked_eq hhead hmax hlen, Option.bind_eq_bind, Option.bind_some, decode]
  by_cases hcorrect : isCorrect buf len = true
  · rw [if_pos hcorrect, if_pos hcorrect, hmaxLen, checkedRead_of_le hname hlen, Option.bind_eq_bind,
      Option.bind_some, hpeek, checkedSub_of_le hmin, Option.bind_eq_bind, Option.bind_some]
    by_cases hrange : 2 ≤ peekUInt32 buf ∧ peekUInt32 buf ≤ len - 2 * kHeaderLen
    · -- the name ends before the checksum
      have htype : kHeaderLen + (peekUInt32 buf - 1) ≤ len := by unfold kHeaderLen at *; omega
      rw [if_pos hrange, if_pos hrange, checkedRead_of_le htype hlen, Option.bind_some]
      dsimp only
      cases P.findMessageTypeByName ((buf.drop kHeaderLen).take (peekUInt32 buf - 1)) with
      | none => rfl
      | some d => exact parseChecked_eq P d hmin hmax hlen hrange.2
    · rw [if_neg hrange, if_neg hrange]
      rfl
  · rw [if_neg hcorrect, if_neg hcorrect]
    rfl

/-- **`Decode` stays inside the frame.** Whatever value `len` was peeked: if `onMessage` calls `Decode`,
the string has six bytes more, and every subtraction and every access that `Decode` and `IsCorrect` make
passes its check, for every name length. -/
theorem decode_inside_frame (P : Pool) {bits : ℕ} (hbits : bits = 32 ∨ bits = 64) (len : ℕ) (s : Bytes)
    (h : (onMessageWith bits P len s).isSome) :
    s.length = len + 6 ∧
      decodeChecked P (s.drop kHeaderLen) len = some (decode P (s.drop kHeaderLen) len) := by
  unfold onMessageWith at h
  split at h
  · next hrange =>
    obtain ⟨hmin, hmax⟩ := hrange
    split at h
    · next heq =>
      have hsize : s.length = len + 6 := (eq_subSize_iff (by omega) hmax).1 heq
      refine ⟨hsize, decodeChecked_eq P ?_ (hmax.trans (by norm_num [kMaxMessageLen])) ?_⟩
      · unfold kMinMessageLen at hmin
        omega
      · rw [List.length_drop, hsize]
        unfold kHeaderLen
        omega
    · cases h
  · cases h

theorem decode_inside_frame_unreadRequest :
    (encoded chatPool unreadRequest).length = 35 + 6 ∧
      decodeChecked chatPool ((encoded chatPool unreadRequest).drop kHeaderLen) 35 =
        some (decode chatPool ((encoded chatPool unreadRequest).drop kHeaderLen) 35) :=
  decode_inside_frame chatPool (.inl rfl) 35 _ (by decide +kernel)

end MutexIM.Codec
