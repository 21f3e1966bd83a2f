import MutexIM.Foundations.Elements
import MutexIM.Foundations.Runs
import MutexIM.Web.Delivery

/-!
# The chat page

`chat.html` shows the friends and the groups of the user. A click on one of them makes a tab and a section
with the messages, or goes to the tab that is there. The handlers of `ChatGood.js` find sections by their ids,
and what is in them by their class.

* `Page.handle`: what is done for an event, up to where a handler throws.
* `Page.Consistent`: tabs and sections belong together, and one of them is shown.
* `Page.handleChatClick_eq` and others: what the handlers do on such a page; `Page.isThrown_iff`: they do not
  throw, but for those of answers.
-/

namespace MutexIM.Web

open Bytes Codec

/-! ## Elements -/

/-- The `data-type` of a tab. -/
inductive DlgType
  | peer
  | group
  deriving DecidableEq

/-- What makes the id of a section, `section-peer-` or `section-group-` and the user or the group. -/
structure DlgId where
  type : DlgType
  id : Bytes
  deriving DecidableEq

/-- The object that `SendClick` makes. -/
structure SentMessage where
  type : DlgType
  timeStamp : UInt64
  fromId : Bytes
  toId : Bytes
  msgData : Bytes
  deriving DecidableEq

/-- A `leftMessage` or a `rightMessage`. -/
inductive PageMessage
  | left (data : NetMessage)
  | right (data : SentMessage)
  deriving DecidableEq

/-- An `li` of `sectionChatTabs`. `current`: its class is `tab-current`. -/
structure Tab where
  dlg : DlgId
  name : Bytes
  current : Bool
  deriving DecidableEq

/-- A `section` of `contentChat`, with the members in its `menu`. `current`: its class is
`content-current`. -/
structure ChatSection where
  dlg : DlgId
  current : Bool
  messages : List PageMessage
  menu : List (Bytes × Bytes)
  deriving DecidableEq

/-- The page. `requests` are those for the members of a group that are not answered, `emitted` what was sent
with `g_socket`. -/
structure Page where
  g_userId : Bytes
  friends : List (Bytes × Bytes)
  groups : List (Bytes × Bytes)
  tabs : List Tab
  sections : List ChatSection
  requests : List Bytes
  emitted : List SentMessage
  deriving DecidableEq

/-- The page when it was loaded. -/
def Page.new (g_userId : Bytes) : Page where
  g_userId := g_userId
  friends := []
  groups := []
  tabs := []
  sections := []
  requests := []
  emitted := []

/-- What a handler leaves: it has returned, or has thrown on the way. -/
inductive Outcome
  | returned (p : Page)
  | thrown (p : Page)
  deriving DecidableEq

namespace Outcome

def page : Outcome → Page
  | returned p => p
  | thrown p => p

def isThrown : Outcome → Bool
  | returned _ => false
  | thrown _ => true

/-- The handler goes on, if it has not thrown. -/
def andThen (o : Outcome) (f : Page → Outcome) : Outcome :=
  match o with
  | returned p => f p
  | thrown p => .thrown p

end Outcome

/-! ## Texts -/

/-- A string of JSON in a text. -/
def nullText (s : Option Bytes) : Bytes := s.getD (ascii "null")

/-- A property of an object in a text. -/
def propertyText (s : Option Bytes) : Bytes := s.getD (ascii "undefined")

/-- The ids and names in a list of `infoLen` strings for each. -/
def infos : List (Option Bytes) → List (Bytes × Bytes)
  | [] => []
  | [userId] => [(nullText userId, ascii "undefined")]
  | [userId, nickName] => [(nullText userId, nullText nickName)]
  | userId :: nickName :: _ :: dataObj => (nullText userId, nullText nickName) :: infos dataObj

/-- A text that stands for itself in the markup the scripts put together. The parser of the markup leaves out
a zero byte and takes CR for a line break. -/
def PlainText (text : Bytes) : Prop := ∀ c ∈ text, c ∉ 0 :: 13 :: ascii "<&'"

instance (text : Bytes) : Decidable (PlainText text) := inferInstanceAs (Decidable (∀ c ∈ text, _))

/-! ## Handlers -/

namespace Page

variable (p : Page)

/-- Something is done with the section of an id; `null` has no properties. -/
def onSection (d : DlgId) (f : ChatSection → ChatSection) : Outcome :=
  match modifyKey ChatSection.dlg d f p.sections with
  | some sections => .returned { p with sections := sections }
  | none => .thrown p

/-- The classes of a tab, and of its section. -/
def setCurrent (i : ℕ) (current : Bool) : Outcome :=
  match p.tabs[i]? with
  | some tab =>
    onSection { p with tabs := p.tabs.modify i fun t => { t with current := current } } tab.dlg
      fun s => { s with current := current }
  | none => .returned p

/-- `HandleChatClick`, for an element of the tab. -/
def handleChatClick (i : ℕ) : Outcome :=
  (match p.tabs.findIdx? Tab.current with
    | some lastChat => p.setCurrent lastChat false
    | none => .returned p).andThen fun p => p.setCurrent i true

/-- `createPeerDlg`, and `createGroupDlg` but for the request. -/
def createDlg (d : DlgId) (name : Bytes) : Outcome :=
  handleChatClick
    { p with
      tabs := p.tabs ++ [⟨d, name, false⟩]
      sections := p.sections ++ [⟨d, false, [], []⟩] } p.tabs.length

/-- `createGroupDlg`. -/
def createGroupDlg (groupId groupName : Bytes) : Outcome :=
  createDlg { p with requests := p.requests ++ [groupId] } ⟨.group, groupId⟩ groupName

/-- `HandlePeerChat`. -/
def handlePeerChat (userId nickName : Bytes) : Outcome :=
  match p.tabs.findIdx? fun t => t.dlg = ⟨.peer, userId⟩ with
  | some i => p.handleChatClick i
  | none => p.createDlg ⟨.peer, userId⟩ nickName

/-- `HandleGroupChat`. -/
def handleGroupChat (groupId groupName : Bytes) : Outcome :=
  match p.tabs.findIdx? fun t => t.dlg = ⟨.group, groupId⟩ with
  | some i => p.handleChatClick i
  | none => p.createGroupDlg groupId groupName

/-- `HandleCloseClick`. -/
def handleCloseClick (i : ℕ) : Outcome :=
  match p.tabs[i]? with
  | some tab =>
    match eraseKey ChatSection.dlg tab.dlg p.sections with
    | some sections =>
      let p := { p with tabs := p.tabs.eraseIdx i, sections := sections }
      if tab.current ∧ p.tabs ≠ [] then p.handleChatClick 0 else .returned p
    | none => .thrown p
  | none => .returned p

/-- A message at the end of a section, or what `getElementById` does not find. -/
def appendMessage (d : DlgId) (m : PageMessage) : Outcome :=
  match p.onSection d fun s => { s with messages := s.messages ++ [m] } with
  | .returned p => .returned p
  | .thrown p => .returned p

/-- The object that `SendClick` makes in a section. -/
def dataOf (s : ChatSection) (text : Bytes) (now : UInt64) : SentMessage :=
  ⟨s.dlg.type, now, p.g_userId, s.dlg.id, text⟩

/-- `SendClick`, in a section. -/
def sendClick (s : ChatSection) (text : Bytes) (now : UInt64) : Outcome :=
  let data := p.dataOf s text now
  (p.appendMessage s.dlg (.right data)).andThen fun p => .returned { p with emitted := p.emitted ++ [data] }

/-- `appendNetPeerMsg`. -/
def appendNetPeerMsg (data : NetMessage) : Outcome :=
  p.appendMessage ⟨.peer, propertyText data.fromId⟩ (.left data)

/-- `appendNetGroupMsg`. -/
def appendNetGroupMsg (data : NetMessage) : Outcome :=
  if data.fromId ≠ some p.g_userId then p.appendMessage ⟨.group, propertyText data.toId⟩ (.left data)
  else .returned p

/-- `AppendFriendsList`; the answer may be something else than JSON. -/
def appendFriendsList : Option (List (Option Bytes)) → Outcome
  | some dataObj => .returned { p with friends := p.friends ++ infos dataObj }
  | none => .thrown p

/-- `AppendGroupList`. -/
def appendGroupList : Option (List (Option Bytes)) → Outcome
  | some dataObj => .returned { p with groups := p.groups ++ infos dataObj }
  | none => .thrown p

/-- `appendGroupMember`. -/
def appendGroupMember (groupId : Bytes) : Option (List (Option Bytes)) → Outcome
  | some dataObj => p.onSection ⟨.group, groupId⟩ fun s => { s with menu := s.menu ++ infos dataObj }
  | none => .thrown p

/-- What happens: answers to requests, clicks, and messages of the socket. -/
inductive Event
  | friendsList (data : Option (List (Option Bytes)))
  | groupsList (data : Option (List (Option Bytes)))
  | groupMember (groupId : Bytes) (data : Option (List (Option Bytes)))
  | clickFriend (i : ℕ)
  | clickGroup (i : ℕ)
  | clickTab (i : ℕ)
  | clickClose (i : ℕ)
  | clickSend (i : ℕ) (text : Bytes) (now : UInt64)
  | peerMessage (data : NetMessage)
  | groupMessage (data : NetMessage)
  deriving DecidableEq

/-- The texts of an event have no markup in them. -/
def Event.Plain : Event → Prop
  | .friendsList data | .groupsList data | .groupMember _ data =>
    ∀ dataObj ∈ data, ∀ text ∈ dataObj, PlainText (nullText text)
  | .clickSend _ text _ => PlainText text
  | .peerMessage data | .groupMessage data => PlainText data.msgData
  | _ => True

instance : (e : Event) → Decidable e.Plain
  | .friendsList data | .groupsList data | .groupMember _ data =>
    inferInstanceAs (Decidable (∀ dataObj ∈ data, ∀ text ∈ dataObj, _))
  | .clickSend .. | .peerMessage _ | .groupMessage _ => inferInstanceAs (Decidable (PlainText _))
  | .clickFriend _ | .clickGroup _ | .clickTab _ | .clickClose _ => inferInstanceAs (Decidable True)

/-- What is done for an event; `none` if there is no such element or request. -/
def handle : Event → Option Outcome
  | .friendsList data => some (p.appendFriendsList data)
  | .groupsList data => some (p.appendGroupList data)
  | .groupMember groupId data =>
    if groupId ∈ p.requests then
      some (appendGroupMember { p with requests := p.requests.erase groupId } groupId data)
    else none
  | .clickFriend i => p.friends[i]?.map fun friend => p.handlePeerChat friend.1 friend.2
  | .clickGroup i => p.groups[i]?.map fun group => p.handleGroupChat group.1 group.2
  | .clickTab i => if i < p.tabs.length then some (p.handleChatClick i) else none
  | .clickClose i => if i < p.tabs.length then some (p.handleCloseClick i) else none
  | .clickSend i text now => p.sections[i]?.map fun s => p.sendClick s text now
  | .peerMessage data => some (p.appendNetPeerMsg data)
  | .groupMessage data => some (p.appendNetGroupMsg data)

/-! ## Tabs and sections -/

/-- Every tab has its section, and both are found by their id. -/
structure Keyed : Prop where
  nodup : (p.tabs.map Tab.dlg).Nodup
  sections : p.sections.map ChatSection.dlg = p.tabs.map Tab.dlg

/-- The tab and the section of an id are shown, and no others. -/
structure Shows (d : Option DlgId) : Prop where
  tabs : ∀ t ∈ p.tabs, t.current = decide (some t.dlg = d)
  sections : ∀ s ∈ p.sections, s.current = decide (some s.dlg = d)

/-- **Tabs and sections belong together**, and if there are any, one is shown. -/
structure Consistent : Prop extends Keyed p where
  current : ∃ d, p.Shows d ∧ (∀ d' ∈ d, d' ∈ p.tabs.map Tab.dlg) ∧ (p.tabs ≠ [] → d ≠ none)

/-- The classes of a tab and its section are set. -/
def mark (d : DlgId) (current : Bool) : Page :=
  { p with
    tabs := p.tabs.map fun t => if t.dlg = d then { t with current := current } else t
    sections := p.sections.map fun s => if s.dlg = d then { s with current := current } else s }

/-- This tab and its section are shown. -/
def select (d : DlgId) : Page :=
  { p with
    tabs := p.tabs.map fun t => { t with current := decide (t.dlg = d) }
    sections := p.sections.map fun s => { s with current := decide (s.dlg = d) } }

variable {p} {i : ℕ} {tab : Tab} {d : DlgId} {cur : Option DlgId}

theorem Keyed.nodup_sections (h : p.Keyed) : (p.sections.map ChatSection.dlg).Nodup := h.sections ▸ h.nodup

theorem Keyed.mem_sections (h : p.Keyed) (hi : p.tabs[i]? = some tab) :
    tab.dlg ∈ p.sections.map ChatSection.dlg :=
  h.sections ▸ List.mem_map_of_mem (List.mem_of_getElem? hi)

theorem tabs_mark (current : Bool) : (p.mark d current).tabs.map Tab.dlg = p.tabs.map Tab.dlg := by
  rw [mark, List.map_map]
  refine List.map_congr_left fun t _ => ?_
  rw [Function.comp_apply]
  split <;> rfl

theorem sections_mark (current : Bool) :
    (p.mark d current).sections.map ChatSection.dlg = p.sections.map ChatSection.dlg := by
  rw [mark, List.map_map]
  refine List.map_congr_left fun s _ => ?_
  rw [Function.comp_apply]
  split <;> rfl

theorem Keyed.mark (h : p.Keyed) (current : Bool) : (p.mark d current).Keyed :=
  ⟨(tabs_mark current).symm ▸ h.nodup, by rw [sections_mark, tabs_mark, h.sections]⟩

theorem setCurrent_eq (h : p.Keyed) (hi : p.tabs[i]? = some tab) (current : Bool) :
    p.setCurrent i current = .returned (p.mark tab.dlg current) := by
  rw [setCurrent, hi]
  dsimp only
  rw [onSection, modifyKey_eq _ h.nodup_sections (h.mem_sections hi), modify_eq_map_key _ h.nodup hi]
  rfl

theorem getElem?_mark (hi : p.tabs[i]? = some tab) (current : Bool) :
    ∃ tab', (p.mark d current).tabs[i]? = some tab' ∧ tab'.dlg = tab.dlg := by
  rw [mark, List.getElem?_map, hi]
  refine ⟨_, rfl, ?_⟩
  dsimp only
  split <;> rfl

/-- What was shown is not any more. -/
theorem mark_mark (hs : p.Shows (some d)) (d' : DlgId) : (p.mark d false).mark d' true = p.select d' := by
  have htabs : ∀ t ∈ p.tabs, t.current = decide (t.dlg = d) := by simpa using hs.tabs
  have hsections : ∀ s ∈ p.sections, s.current = decide (s.dlg = d) := by simpa using hs.sections
  unfold mark select
  dsimp only
  rw [List.map_map, List.map_map]
  congr 1
  · refine List.map_congr_left fun ⟨dlg, name, current⟩ ht => ?_
    obtain rfl : current = decide (dlg = d) := htabs _ ht
    rcases eq_or_ne dlg d with rfl | hd <;> rcases eq_or_ne dlg d' with rfl | hd' <;> simp [*]
  · refine List.map_congr_left fun ⟨dlg, current, messages, menu⟩ hs' => ?_
    obtain rfl : current = decide (dlg = d) := hsections _ hs'
    rcases eq_or_ne dlg d with rfl | hd <;> rcases eq_or_ne dlg d' with rfl | hd' <;> simp [*]

theorem mark_eq_select (htabs : ∀ t ∈ p.tabs, t.current = false)
    (hsections : ∀ s ∈ p.sections, s.current = false) : p.mark d true = p.select d := by
  unfold mark select
  congr 1
  · refine List.map_congr_left fun ⟨dlg, name, current⟩ ht => ?_
    obtain rfl : current = false := htabs _ ht
    by_cases hd : dlg = d <;> simp [hd]
  · refine List.map_congr_left fun ⟨dlg, current, messages, menu⟩ hs' => ?_
    obtain rfl : current = false := hsections _ hs'
    by_cases hd : dlg = d <;> simp [hd]

/-- **A click on a tab** shows it and its section. -/
theorem handleChatClick_eq (h : p.Keyed) (hs : p.Shows cur) (hi : p.tabs[i]? = some tab) :
    p.handleChatClick i = .returned (p.select tab.dlg) := by
  unfold handleChatClick
  cases hfind : p.tabs.findIdx? Tab.current with
  | none =>
    have htabs : ∀ t ∈ p.tabs, t.current = false := fun t ht => List.findIdx?_eq_none_iff.1 hfind t ht
    have hsections : ∀ s ∈ p.sections, s.current = false := by
      intro s hmem
      obtain ⟨t, ht, hts⟩ := List.mem_map.1 (h.sections ▸ List.mem_map_of_mem hmem)
      rw [hs.sections s hmem, ← hts, ← hs.tabs t ht, htabs t ht]
    exact (setCurrent_eq h hi true).trans (congrArg Outcome.returned (mark_eq_select htabs hsections))
  | some l =>
    obtain ⟨hlt, hlast, -⟩ := List.findIdx?_eq_some_iff_getElem.1 hfind
    have hl : p.tabs[l]? = some p.tabs[l] := List.getElem?_eq_getElem hlt
    have hcur : some (p.tabs[l]).dlg = cur :=
      of_decide_eq_true ((hs.tabs _ (List.getElem_mem hlt)).symm.trans hlast)
    obtain ⟨tab', hi', hdlg⟩ := getElem?_mark (d := p.tabs[l].dlg) hi false
    dsimp only
    rw [setCurrent_eq h hl, Outcome.andThen, setCurrent_eq (h.mark false) hi', hdlg, mark_mark (hcur ▸ hs)]

/-! ## Handlers on a consistent page -/

/-- A new tab and its section. -/
def opened (p : Page) (d : DlgId) (name : Bytes) : Page :=
  { p with tabs := p.tabs ++ [⟨d, name, false⟩], sections := p.sections ++ [⟨d, false, [], []⟩] }

/-- A tab and its section are gone. -/
def closed (p : Page) (d : DlgId) : Page :=
  { p with
    tabs := p.tabs.filter fun t => t.dlg ≠ d
    sections := p.sections.filter fun s => s.dlg ≠ d }

/-- Something is done with the section of an id, if there is one. -/
def changed (p : Page) (d : DlgId) (f : ChatSection → ChatSection) : Page :=
  { p with sections := p.sections.map fun s => if s.dlg = d then f s else s }

theorem Keyed.opened (h : p.Keyed) {name : Bytes} (hd : d ∉ p.tabs.map Tab.dlg) :
    (p.opened d name).Keyed := by
  constructor
  · rw [Page.opened, List.map_append, List.nodup_append]
    refine ⟨h.nodup, List.nodup_singleton _, fun x hx y hy => ?_⟩
    obtain rfl := List.mem_singleton.1 hy
    exact fun hxy => hd (hxy ▸ hx)
  · rw [Page.opened, List.map_append, List.map_append, h.sections]
    rfl

theorem Keyed.closed (h : p.Keyed) : (p.closed d).Keyed := by
  have htabs : (p.closed d).tabs.map Tab.dlg = (p.tabs.map Tab.dlg).filter fun k => k ≠ d := by
    rw [List.filter_map]
    rfl
  have hsections : (p.closed d).sections.map ChatSection.dlg =
      (p.sections.map ChatSection.dlg).filter fun k => k ≠ d := by
    rw [List.filter_map]
    rfl
  exact ⟨htabs ▸ h.nodup.filter _, by rw [htabs, hsections, h.sections]⟩

theorem Keyed.select (h : p.Keyed) : (p.select d).Keyed := by
  have htabs : (p.select d).tabs.map Tab.dlg = p.tabs.map Tab.dlg := List.map_map
  have hsections : (p.select d).sections.map ChatSection.dlg = p.sections.map ChatSection.dlg := List.map_map
  exact ⟨htabs ▸ h.nodup, by rw [htabs, hsections, h.sections]⟩

theorem shows_select : (p.select d).Shows (some d) where
  tabs t ht := by
    obtain ⟨t, -, rfl⟩ := List.mem_map.1 ht
    simp
  sections s hs := by
    obtain ⟨s, -, rfl⟩ := List.mem_map.1 hs
    simp

theorem Keyed.consistent_select (h : p.Keyed) (hd : d ∈ p.tabs.map Tab.dlg) : (p.select d).Consistent where
  toKeyed := h.select
  current := by
    have htabs : (p.select d).tabs.map Tab.dlg = p.tabs.map Tab.dlg := List.map_map
    refine ⟨some d, shows_select, fun d' hd' => ?_, fun _ => Option.some_ne_none d⟩
    rwa [htabs, ← Option.some.inj hd']

theorem Shows.opened (h : p.Shows cur) {name : Bytes} (hd : some d ≠ cur) : (p.opened d name).Shows cur where
  tabs t ht := by
    rcases List.mem_append.1 ht with ht | ht
    · exact h.tabs t ht
    · obtain rfl := List.mem_singleton.1 ht
      exact (decide_eq_false hd).symm
  sections s hs := by
    rcases List.mem_append.1 hs with hs | hs
    · exact h.sections s hs
    · obtain rfl := List.mem_singleton.1 hs
      exact (decide_eq_false hd).symm

theorem Shows.closed (h : p.Shows cur) : (p.closed d).Shows cur :=
  ⟨fun t ht => h.tabs t (List.mem_of_mem_filter ht), fun s hs => h.sections s (List.mem_of_mem_filter hs)⟩

/-- A new tab is shown at once. -/
theorem createDlg_eq (h : p.Consistent) (hd : d ∉ p.tabs.map Tab.dlg) (name : Bytes) :
    p.createDlg d name = .returned ((p.opened d name).select d) := by
  obtain ⟨cur, hshows, hcur, -⟩ := h.current
  have hne : some d ≠ cur := fun heq => hd (hcur d heq.symm)
  have hlast : (p.opened d name).tabs[p.tabs.length]? = some ⟨d, name, false⟩ := List.getElem?_concat_length
  exact handleChatClick_eq (h.opened hd) (hshows.opened hne) hlast

/-- **A click on a friend or a group** shows its tab, which is made if there is none. -/
theorem handlePeerChat_eq (h : p.Consistent) (userId nickName : Bytes) :
    p.handlePeerChat userId nickName =
      .returned (if ⟨.peer, userId⟩ ∈ p.tabs.map Tab.dlg then p.select ⟨.peer, userId⟩
        else (p.opened ⟨.peer, userId⟩ nickName).select ⟨.peer, userId⟩) := by
  unfold handlePeerChat
  by_cases hd : (⟨.peer, userId⟩ : DlgId) ∈ p.tabs.map Tab.dlg
  · obtain ⟨i, tab, hfind, hi, hdlg⟩ := exists_findIdx?_key hd
    obtain ⟨cur, hshows, -⟩ := h.current
    rw [hfind, if_pos hd, ← hdlg]
    exact handleChatClick_eq h.toKeyed hshows hi
  · rw [findIdx?_key_eq_none hd, if_neg hd]
    exact createDlg_eq h hd nickName

theorem Consistent.of_tabs {p' : Page} (h : p.Consistent) (htabs : p'.tabs = p.tabs)
    (hsections : p'.sections = p.sections) : p'.Consistent := by
  obtain ⟨⟨hnodup, hkeys⟩, cur, ⟨hst, hss⟩, hcur⟩ := h
  exact ⟨⟨htabs ▸ hnodup, by rw [htabs, hsections, hkeys]⟩, cur, ⟨htabs ▸ hst, hsections ▸ hss⟩, htabs ▸ hcur⟩

theorem handleGroupChat_eq (h : p.Consistent) (groupId groupName : Bytes) :
    p.handleGroupChat groupId groupName =
      .returned (if ⟨.group, groupId⟩ ∈ p.tabs.map Tab.dlg then p.select ⟨.group, groupId⟩
        else (opened { p with requests := p.requests ++ [groupId] } ⟨.group, groupId⟩ groupName).select
          ⟨.group, groupId⟩) := by
  unfold handleGroupChat
  by_cases hd : (⟨.group, groupId⟩ : DlgId) ∈ p.tabs.map Tab.dlg
  · obtain ⟨i, tab, hfind, hi, hdlg⟩ := exists_findIdx?_key hd
    obtain ⟨cur, hshows, -⟩ := h.current
    rw [hfind, if_pos hd, ← hdlg]
    exact handleChatClick_eq h.toKeyed hshows hi
  · have hrequest : Consistent { p with requests := p.requests ++ [groupId] } := h.of_tabs rfl rfl
    rw [findIdx?_key_eq_none hd, if_neg hd]
    exact createDlg_eq hrequest hd groupName

/-- If a tab that is closed was shown, the first of the others is. -/
theorem handleCloseClick_eq (h : p.Keyed) (hi : p.tabs[i]? = some tab) :
    p.handleCloseClick i =
      if tab.current ∧ (p.closed tab.dlg).tabs ≠ [] then (p.closed tab.dlg).handleChatClick 0
      else .returned (p.closed tab.dlg) := by
  unfold handleCloseClick
  rw [hi]
  dsimp only
  rw [eraseKey_eq h.nodup_sections (h.mem_sections hi)]
  dsimp only
  simp only [eraseIdx_eq_filter_key h.nodup hi]
  rfl

/-- **A click on a close icon.** -/
theorem handleCloseClick_spec (h : p.Consistent) (hi : p.tabs[i]? = some tab) :
    ∃ p', p.handleCloseClick i = .returned p' ∧ p'.Consistent ∧
      (p' = p.closed tab.dlg ∨ ∃ d, p' = (p.closed tab.dlg).select d) := by
  obtain ⟨cur, hshows, hcur, hne⟩ := h.current
  have htab : tab.current = decide (some tab.dlg = cur) := hshows.tabs tab (List.mem_of_getElem? hi)
  rw [handleCloseClick_eq h.toKeyed hi]
  split
  · next hfirst =>
    obtain ⟨first, tabs, htabs⟩ := List.exists_cons_of_ne_nil hfirst.2
    have hfirst : (p.closed tab.dlg).tabs[0]? = some first := by rw [htabs, List.getElem?_cons_zero]
    refine ⟨_, handleChatClick_eq h.toKeyed.closed hshows.closed hfirst, ?_, .inr ⟨_, rfl⟩⟩
    exact h.toKeyed.closed.consistent_select (List.mem_map_of_mem (List.mem_of_getElem? hfirst))
  · next hlast =>
    refine ⟨_, rfl, ⟨h.toKeyed.closed, ?_⟩, .inl rfl⟩
    by_cases htcur : some tab.dlg = cur
    · -- the last tab is closed
      have hnil : (p.closed tab.dlg).tabs = [] := by
        by_contra htabs
        exact hlast ⟨htab.trans (decide_eq_true htcur), htabs⟩
      have hsections : (p.closed tab.dlg).sections = [] := by
        rw [← List.map_eq_nil_iff, h.toKeyed.closed.sections, hnil, List.map_nil]
      refine ⟨none, ⟨?_, ?_⟩, by simp, fun htabs => absurd hnil htabs⟩
      · rw [hnil]
        exact List.forall_mem_nil _
      · rw [hsections]
        exact List.forall_mem_nil _
    · refine ⟨cur, hshows.closed, fun d hd => ?_, fun _ => hne (List.ne_nil_of_mem (List.mem_of_getElem? hi))⟩
      obtain ⟨t, ht, rfl⟩ := List.mem_map.1 (hcur d hd)
      have htd : t.dlg ≠ tab.dlg := fun heq => htcur (heq ▸ hd.symm)
      exact List.mem_map_of_mem (List.mem_filter.2 ⟨ht, decide_eq_true htd⟩)

theorem appendMessage_eq (h : p.Keyed) (m : PageMessage) :
    p.appendMessage d m = .returned (p.changed d fun s => { s with messages := s.messages ++ [m] }) := by
  unfold appendMessage onSection
  by_cases hd : d ∈ p.sections.map ChatSection.dlg
  · rw [modifyKey_eq _ h.nodup_sections hd]
    rfl
  · rw [modifyKey_eq_none _ hd, changed, map_key_of_notMem hd]

theorem sendClick_eq (h : p.Keyed) (s : ChatSection) (text : Bytes) (now : UInt64) :
    p.sendClick s text now = .returned { p.changed s.dlg
      (fun s' => { s' with messages := s'.messages ++ [.right (p.dataOf s text now)] }) with
        emitted := p.emitted ++ [p.dataOf s text now] } := by
  rw [sendClick, appendMessage_eq h]
  rfl

/-! ## What throws -/

/-- The answer to a request is no JSON, or the section of the group is closed. -/
def Fails (p : Page) : Event → Prop
  | .friendsList data | .groupsList data => data = none
  | .groupMember groupId data => data = none ∨ ⟨.group, groupId⟩ ∉ p.tabs.map Tab.dlg
  | _ => False

/-- **On a consistent page, no other handler throws.** -/
theorem isThrown_iff {e : Event} {o : Outcome} (h : p.Consistent) (ho : p.handle e = some o) :
    o.isThrown = true ↔ p.Fails e := by
  have hreturned : ∀ {p'}, o = .returned p' → (o.isThrown = true ↔ False) := by
    intro p' heq
    simp [heq, Outcome.isThrown]
  cases e with
  | friendsList data =>
    obtain rfl := Option.some.inj ho
    cases data <;> simp [appendFriendsList, Outcome.isThrown, Fails]
  | groupsList data =>
    obtain rfl := Option.some.inj ho
    cases data <;> simp [appendGroupList, Outcome.isThrown, Fails]
  | groupMember groupId data =>
    obtain ⟨-, ho⟩ := Option.ite_none_right_eq_some.1 ho
    obtain rfl := Option.some.inj ho
    cases data with
    | none => simp [appendGroupMember, Outcome.isThrown, Fails]
    | some dataObj =>
      unfold appendGroupMember onSection Fails
      dsimp only
      rw [← h.sections]
      by_cases hd : (⟨.group, groupId⟩ : DlgId) ∈ p.sections.map ChatSection.dlg
      · rw [modifyKey_eq _ h.nodup_sections hd]
        simp [Outcome.isThrown, hd]
      · rw [modifyKey_eq_none _ hd]
        simp [Outcome.isThrown, hd]
  | clickFriend i =>
    obtain ⟨friend, -, heq⟩ := Option.map_eq_some_iff.1 ho
    exact hreturned (heq.symm.trans (handlePeerChat_eq h friend.1 friend.2))
  | clickGroup i =>
    obtain ⟨group, -, heq⟩ := Option.map_eq_some_iff.1 ho
    exact hreturned (heq.symm.trans (handleGroupChat_eq h group.1 group.2))
  | clickTab i =>
    obtain ⟨hlt, ho⟩ := Option.ite_none_right_eq_some.1 ho
    obtain ⟨cur, hshows, -⟩ := h.current
    exact hreturned ((Option.some.inj ho).symm.trans
      (handleChatClick_eq h.toKeyed hshows (List.getElem?_eq_getElem hlt)))
  | clickClose i =>
    obtain ⟨hlt, ho⟩ := Option.ite_none_right_eq_some.1 ho
    obtain ⟨p', heq, -⟩ := handleCloseClick_spec h (List.getElem?_eq_getElem hlt)
    exact hreturned ((Option.some.inj ho).symm.trans heq)
  | clickSend i text now =>
    obtain ⟨s, -, heq⟩ := Option.map_eq_some_iff.1 ho
    exact hreturned (heq.symm.trans (sendClick_eq h.toKeyed s text now))
  | peerMessage data => exact hreturned ((Option.some.inj ho).symm.trans (appendMessage_eq h.toKeyed _))
  | groupMessage data =>
    have heq : p.appendNetGroupMsg data = o := Option.some.inj ho
    unfold appendNetGroupMsg at heq
    split at heq
    · exact hreturned (heq.symm.trans (appendMessage_eq h.toKeyed _))
    · exact hreturned heq.symm

end Page

end MutexIM.Web
