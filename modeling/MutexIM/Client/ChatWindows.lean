import MutexIM.Codec.Messages
import MutexIM.Foundations.Loop

/-!
# Messages for the chat windows

`CClientDlg::handleMsgData` looks for the window of an incoming message, searches the list of friends for
the nickname of the sender and hands both to the window. The loops of the search do not advance their
iterator.

* `ends_search_iff`: when such a loop ends with the nickname that is wanted.
* `handleMsgData_iff`: the messages that are handled to the end.
-/

namespace MutexIM.Client

open Bytes Codec

/-- What is used of a `USERDATA`. -/
structure UserData where
  userId : Bytes
  nickName : Bytes

/-- The members of `CClientDlg` that the handler uses. -/
structure ClientDlg (Window : Type) where
  listFriends : List UserData
  mapdlgChat : Bytes → Option Window
  mapdlgGroupChat : Bytes → Option Window

/-- `WM_USE_UPDATE_DATA`, sent to a window. -/
structure UpdateData (Window : Type) where
  window : Window
  fromidNickName : Bytes
  msg : MsgData

variable {Window : Type}

/-! ## The search loops -/

/-- A turn of `while (itBegin != m_listFriends.end())`. The state is the part of the list that begins at
`itBegin`, and `fromidNickName`. -/
def searchTurn (fromId : Bytes) : List UserData × Bytes → (List UserData × Bytes) ⊕ Bytes
  | ([], fromidNickName) => .inr fromidNickName
  | (u :: rest, fromidNickName) =>
    if u.userId = fromId then .inr u.nickName
    -- nothing stands behind the `if`: the iterator stays where it is
    else .inl (u :: rest, fromidNickName)

/-- A search from the beginning, with `fromidNickName` empty. -/
def search (listFriends : List UserData) (fromId : Bytes) (fuel : ℕ) : Option Bytes :=
  loop (searchTurn fromId) fuel (listFriends, [])

/-- The nickname of the first friend with the id, or the empty string. -/
def nickNameOf (listFriends : List UserData) (fromId : Bytes) : Bytes :=
  ((listFriends.find? fun u => u.userId = fromId).map UserData.nickName).getD []

theorem searchTurn_of_eq {fromId : Bytes} {u : UserData} (h : u.userId = fromId)
    (rest : List UserData) (nick : Bytes) :
    searchTurn fromId (u :: rest, nick) = .inr u.nickName := if_pos h

theorem searchTurn_of_ne {fromId : Bytes} {u : UserData} (h : u.userId ≠ fromId)
    (rest : List UserData) (nick : Bytes) :
    searchTurn fromId (u :: rest, nick) = .inl (u :: rest, nick) := if_neg h

/-- A search ends with the right nickname if the list is empty or the sender comes first in it, and
otherwise it does not end. -/
theorem ends_search_iff (listFriends : List UserData) (fromId : Bytes) :
    Ends (searchTurn fromId) (listFriends, []) (nickNameOf listFriends fromId) ↔
      ∀ u ∈ listFriends.head?, u.userId = fromId := by
  cases listFriends with
  | nil =>
    have hturn : searchTurn fromId ([], []) = .inr [] := rfl
    exact iff_of_true ((ends_iff_of_inr hturn).2 rfl) fun u hu => by cases hu
  | cons u rest =>
    by_cases hu : u.userId = fromId
    · have hfirst : u.nickName = nickNameOf (u :: rest) fromId := by
        rw [nickNameOf, List.find?_cons_of_pos (by simpa using hu)]
        rfl
      refine iff_of_true ((ends_iff_of_inr (searchTurn_of_eq hu rest [])).2 hfirst) fun v hv => ?_
      rwa [← Option.some.inj hv]
    · have hstuck := not_ends_of_stuck (a := nickNameOf (u :: rest) fromId) (searchTurn_of_ne hu rest [])
      exact iff_of_false hstuck fun h => hu (h u rfl)

/-! ## The handler -/

namespace ClientDlg

variable (c : ClientDlg Window)

/-- `handleMsgData`, with the messages sent to windows; `none` when the search has not ended within `fuel`
turns. -/
def handleMsgData (m : MsgData) (fuel : ℕ) : Option (List (UpdateData Window)) :=
  if m.type = chatText ∨ m.type = chatAudio then
    match c.mapdlgChat m.fromId with
    | none => some []
    | some window => (search c.listFriends m.fromId fuel).map fun nick => [⟨window, nick, m⟩]
  else if m.type = groupchatText ∨ m.type = groupchatAudio then
    match c.mapdlgGroupChat m.toId with
    | none => some []
    | some window => (search c.listFriends m.fromId fuel).map fun nick => [⟨window, nick, m⟩]
  else some []

/-- The window in which a message is to be shown. -/
def windowFor (m : MsgData) : Option Window :=
  if m.type = chatText ∨ m.type = chatAudio then c.mapdlgChat m.fromId
  else if m.type = groupchatText ∨ m.type = groupchatAudio then c.mapdlgGroupChat m.toId
  else none

/-- What a message is to come to. -/
def updates (m : MsgData) : List (UpdateData Window) :=
  ((c.windowFor m).map fun window => ⟨window, nickNameOf c.listFriends m.fromId, m⟩).toList

/-- The two branches differ in the map of windows only. -/
theorem handleMsgData_eq (m : MsgData) (fuel : ℕ) :
    c.handleMsgData m fuel =
      match c.windowFor m with
      | none => some []
      | some window => (search c.listFriends m.fromId fuel).map fun nick => [⟨window, nick, m⟩] := by
  unfold handleMsgData windowFor
  split
  · rfl
  · split <;> rfl

/-- **Which messages are handled to the end.** The handler returns, and has sent the message with the
nickname of the first friend who has the sender's id to the message's window, exactly if no window is
open for the message, or there is no friend, or the sender is the first friend of the list. -/
theorem handleMsgData_iff (m : MsgData) :
    (∃ fuel, c.handleMsgData m fuel = some (c.updates m)) ↔
      c.windowFor m = none ∨ ∀ u ∈ c.listFriends.head?, u.userId = m.fromId := by
  simp only [handleMsgData_eq, updates]
  cases hwindow : c.windowFor m with
  | none => exact iff_of_true ⟨0, rfl⟩ (.inl rfl)
  | some window =>
    rw [or_iff_right (Option.some_ne_none _), ← ends_search_iff]
    simp only [Option.map_eq_some_iff, Option.map_some, Option.toList_some, List.cons.injEq,
      UpdateData.mk.injEq, true_and, and_true, exists_eq_right, Ends, search]

end ClientDlg

/-- Two friends, and a window for the second. -/
def twoFriends : ClientDlg Unit where
  listFriends := [⟨ascii "a", ascii "Ann"⟩, ⟨ascii "b", ascii "Bob"⟩]
  mapdlgChat u := if u = ascii "b" then some () else none
  mapdlgGroupChat _ := none

/-- A message of the second. -/
def fromSecond : MsgData := ⟨0, 0, ascii "b", ascii "c", ascii "hello", chatText⟩

/-- It is never shown. -/
theorem handleMsgData_fromSecond :
    twoFriends.updates fromSecond = [⟨(), ascii "Bob", fromSecond⟩] ∧
      ∀ fuel, twoFriends.handleMsgData fromSecond fuel = none := by
  have hwindow : twoFriends.windowFor fromSecond = some () := by decide
  have hab : ascii "a" ≠ fromSecond.fromId := by decide
  refine ⟨rfl, fun fuel => ?_⟩
  have hsearch : search twoFriends.listFriends fromSecond.fromId fuel = none :=
    loop_of_stuck (searchTurn_of_ne (u := ⟨ascii "a", ascii "Ann"⟩) hab _ _) fuel
  rw [ClientDlg.handleMsgData_eq, hwindow, hsearch]
  rfl

end MutexIM.Client
