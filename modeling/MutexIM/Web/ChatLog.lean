import MutexIM.Web.ChatPage

/-!
# What the chat page shows

A section of the chat page is there from a click on its friend or group to a click on its close icon. It holds
the messages and the members that have come meanwhile, and what the user has written there.

* `Page.entries`: what comes with an event, clicks included; the log is all of it, in order.
* `Page.shown`: what a section has to hold after what has come for it, if it is there at all.
* `Page.Sound` is the invariant; `Page.Sound.handle`: every handler keeps it.
* `Page.sound_page_of_run`: so it holds whatever the user does and whatever comes in.
-/

namespace MutexIM.Web

open Bytes

namespace Page

/-! ## What comes -/

/-- What comes for a section: a click on its friend or group, or on its close icon, a message or members. -/
inductive Entry
  | click
  | close
  | message (m : PageMessage)
  | members (infos : List (Bytes × Bytes))
  deriving DecidableEq

def Entry.message? : Entry → Option PageMessage
  | .message m => some m
  | _ => none

def Entry.sent? : Entry → Option SentMessage
  | .message (.right m) => some m
  | _ => none

def Entry.infos : Entry → List (Bytes × Bytes)
  | .members infos => infos
  | _ => []

/-- What comes with an event, and for which section. -/
def entries (p : Page) : Event → List (DlgId × Entry)
  | .clickFriend i => (p.friends[i]?.map fun friend => (⟨.peer, friend.1⟩, .click)).toList
  | .clickGroup i => (p.groups[i]?.map fun group => (⟨.group, group.1⟩, .click)).toList
  | .clickClose i => (p.tabs[i]?.map fun tab => (tab.dlg, .close)).toList
  | .groupMember groupId (some dataObj) => [(⟨.group, groupId⟩, .members (infos dataObj))]
  | .clickSend i text now =>
    (p.sections[i]?.map fun s => (s.dlg, Entry.message (.right (p.dataOf s text now)))).toList
  | .peerMessage data => [(⟨.peer, propertyText data.fromId⟩, .message (.left data))]
  | .groupMessage data =>
    if data.fromId ≠ some p.g_userId then [(⟨.group, propertyText data.toId⟩, .message (.left data))]
    else []
  | _ => []

/-- What has come for a section. -/
def entriesOf (log : List (DlgId × Entry)) (d : DlgId) : List Entry :=
  (log.filter fun e => e.1 = d).map Prod.snd

/-- What a section has to hold when one thing more has come; `none` if there is no section. -/
def next (shown : Option (List Entry)) : Entry → Option (List Entry)
  | .click => some (shown.getD [])
  | .close => none
  | x => shown.map (· ++ [x])

/-- What a section has to hold after this. -/
def shown (l : List Entry) : Option (List Entry) := l.foldl next none

/-- The section holds this. -/
def Holds (s : ChatSection) (l : List Entry) : Prop :=
  s.messages = l.filterMap Entry.message? ∧ s.menu = l.flatMap Entry.infos

/-- The page, and what has come. -/
structure Record where
  page : Page
  log : List (DlgId × Entry)

/-- The page after an event, if there is no markup in its texts. -/
def Record.step (r : Record) (e : Event) : Option Record :=
  if e.Plain then (r.page.handle e).map fun o => ⟨o.page, r.log ++ r.page.entries e⟩ else none

/-- **Sound**: tabs and sections belong together, the sections are those that have been opened and not closed
since, each holds what has come for it since then, and what the user has sent is in the log. -/
structure Sound (g_userId : Bytes) (p : Page) (log : List (DlgId × Entry)) : Prop where
  userId : p.g_userId = g_userId
  consistent : p.Consistent
  opened : ∀ d, (shown (entriesOf log d)).isSome → d ∈ p.sections.map ChatSection.dlg
  sections : ∀ s ∈ p.sections, ∃ l, shown (entriesOf log s.dlg) = some l ∧ Holds s l
  emitted : p.emitted = log.filterMap fun e => e.2.sent?
  sent : ∀ e ∈ log, ∀ m ∈ e.2.sent?, m.fromId = g_userId ∧ e.1 = ⟨m.type, m.toId⟩

theorem sound_new (g_userId : Bytes) : (new g_userId).Sound g_userId [] where
  userId := rfl
  consistent := ⟨⟨List.nodup_nil, rfl⟩, none, ⟨List.forall_mem_nil _, List.forall_mem_nil _⟩, by simp,
    fun h => absurd rfl h⟩
  opened _ h := absurd h Bool.false_ne_true
  sections := List.forall_mem_nil _
  emitted := rfl
  sent := List.forall_mem_nil _

theorem entriesOf_append (log log' : List (DlgId × Entry)) (d : DlgId) :
    entriesOf (log ++ log') d = entriesOf log d ++ entriesOf log' d := by
  rw [entriesOf, List.filter_append, List.map_append]
  rfl

theorem entriesOf_self (d : DlgId) (x : Entry) : entriesOf [(d, x)] d = [x] := by simp [entriesOf]

theorem entriesOf_of_ne {d d' : DlgId} (h : d' ≠ d) (x : Entry) : entriesOf [(d, x)] d' = [] := by
  simp [entriesOf, h.symm]

theorem shown_append (log : List (DlgId × Entry)) (d : DlgId) (x : Entry) :
    shown (entriesOf (log ++ [(d, x)]) d) = next (shown (entriesOf log d)) x := by
  rw [entriesOf_append, entriesOf_self, shown, List.foldl_append]
  rfl

theorem shown_append_of_ne {d d' : DlgId} (h : d' ≠ d) (log : List (DlgId × Entry)) (x : Entry) :
    shown (entriesOf (log ++ [(d, x)]) d') = shown (entriesOf log d') := by
  rw [entriesOf_append, entriesOf_of_ne h, List.append_nil]

/-- What a section holds, apart from its class. -/
def content (s : ChatSection) : DlgId × List PageMessage × List (Bytes × Bytes) := (s.dlg, s.messages, s.menu)

/-! ## Steps -/

section Steps

variable {p p' : Page} {i : ℕ} {tab : Tab} {d : DlgId} {g_userId : Bytes} {log : List (DlgId × Entry)}

/-- The sections are there that were there, and hold what they held. -/
structure Rearranged (p p' : Page) : Prop where
  userId : p'.g_userId = p.g_userId
  emitted : p'.emitted = p.emitted
  content : p'.sections.map content = p.sections.map content

theorem Rearranged.refl (huser : p'.g_userId = p.g_userId) (hemitted : p'.emitted = p.emitted)
    (hsections : p'.sections = p.sections) : Rearranged p p' :=
  ⟨huser, hemitted, congrArg (List.map Page.content) hsections⟩

theorem content_select (d : DlgId) : (p.select d).sections.map content = p.sections.map content :=
  List.map_map

theorem Rearranged.select (h : Rearranged p p') (d : DlgId) : Rearranged p (p'.select d) :=
  ⟨h.userId, h.emitted, (content_select d).trans h.content⟩

theorem dlg_of_content (h : p'.sections.map content = p.sections.map content) :
    p'.sections.map ChatSection.dlg = p.sections.map ChatSection.dlg := by
  have := congrArg (List.map Prod.fst) h
  rwa [List.map_map, List.map_map] at this

/-- What a section holds depends on its content. -/
theorem Holds.of_content {s s' : ChatSection} {l : List Entry} (h : Holds s l) (heq : content s = content s') :
    Holds s' l := by
  obtain ⟨hm, hmenu⟩ := Prod.mk.inj (Prod.mk.inj heq).2
  exact ⟨hm ▸ h.1, hmenu ▸ h.2⟩

theorem Sound.of_content (h : p.Sound g_userId log) {s' : ChatSection}
    (hs' : content s' ∈ p.sections.map content) :
    ∃ l, shown (entriesOf log s'.dlg) = some l ∧ Holds s' l := by
  obtain ⟨s, hs, heq⟩ := List.mem_map.1 hs'
  obtain ⟨l, hshown, hholds⟩ := h.sections s hs
  exact ⟨l, (Prod.mk.inj heq).1 ▸ hshown, hholds.of_content heq⟩

/-- A step with which nothing comes. -/
theorem Sound.rearrange (h : p.Sound g_userId log) (hconsistent : p'.Consistent) (hp : Rearranged p p') :
    p'.Sound g_userId (log ++ []) := by
  rw [List.append_nil]
  exact {
    userId := hp.userId.trans h.userId
    consistent := hconsistent
    opened := fun d hd => (dlg_of_content hp.content).symm ▸ h.opened d hd
    sections := fun s' hs' => h.of_content (hp.content ▸ List.mem_map_of_mem hs')
    emitted := hp.emitted.trans h.emitted
    sent := h.sent }

/-- **A step with which something comes for a section**: the others stay as they are. -/
theorem Sound.step (h : p.Sound g_userId log) {x : Entry} (hconsistent : p'.Consistent)
    (huser : p'.g_userId = p.g_userId) (hemitted : p'.emitted = p.emitted ++ x.sent?.toList)
    (hsent : ∀ m ∈ x.sent?, m.fromId = g_userId ∧ d = ⟨m.type, m.toId⟩)
    (hopened : (next (shown (entriesOf log d)) x).isSome → d ∈ p'.sections.map ChatSection.dlg)
    (hself : ∀ s' ∈ p'.sections, s'.dlg = d →
      ∃ l, next (shown (entriesOf log d)) x = some l ∧ Holds s' l)
    (hothers : ∀ d' ≠ d, d' ∈ p.sections.map ChatSection.dlg → d' ∈ p'.sections.map ChatSection.dlg)
    (hcontent : ∀ s' ∈ p'.sections, s'.dlg ≠ d → content s' ∈ p.sections.map content) :
    p'.Sound g_userId (log ++ [(d, x)]) where
  userId := huser.trans h.userId
  consistent := hconsistent
  opened d' hd' := by
    by_cases hne : d' = d
    · subst hne
      rw [shown_append] at hd'
      exact hopened hd'
    · rw [shown_append_of_ne hne] at hd'
      exact hothers d' hne (h.opened d' hd')
  sections s' hs' := by
    by_cases hd : s'.dlg = d
    · rw [hd, shown_append]
      exact hself s' hs' hd
    · rw [shown_append_of_ne hd]
      exact h.of_content (hcontent s' hs' hd)
  emitted := by
    rw [hemitted, h.emitted, List.filterMap_append]
    cases hx : x.sent? <;> simp [hx]
  sent := List.forall_mem_append.2 ⟨h.sent, List.forall_mem_singleton.2 hsent⟩

/-- A click on a friend or a group whose section is there. -/
theorem Sound.click_select (h : p.Sound g_userId log) (hd : d ∈ p.tabs.map Tab.dlg) :
    (p.select d).Sound g_userId (log ++ [(d, .click)]) := by
  have hdlg := dlg_of_content (content_select (p := p) d)
  refine h.step (h.consistent.toKeyed.consistent_select hd) rfl (List.append_nil _).symm
    (by simp [Entry.sent?]) (fun _ => ?_) (fun s' hs' heq => ?_) (fun d' _ hd' => hdlg ▸ hd')
    (fun s' hs' _ => content_select (p := p) d ▸ List.mem_map_of_mem hs')
  · rw [hdlg, h.consistent.sections]
    exact hd
  · obtain ⟨l, hshown, hholds⟩ := h.of_content (content_select (p := p) d ▸ List.mem_map_of_mem hs')
    rw [heq] at hshown
    rw [hshown]
    exact ⟨l, rfl, hholds⟩

/-- A click on a friend or a group that has no section yet. -/
theorem Sound.click_opened (h : p.Sound g_userId log) (hd : d ∉ p.tabs.map Tab.dlg) (name : Bytes)
    {requests : List Bytes} :
    ((Page.opened { p with requests := requests } d name).select d).Sound g_userId (log ++ [(d, .click)]) := by
  have hkeyed : Keyed { p with requests := requests } := ⟨h.consistent.nodup, h.consistent.sections⟩
  have hnone : shown (entriesOf log d) = none := by
    by_contra hsome
    have hmem := h.opened d (Option.isSome_iff_ne_none.2 hsome)
    rw [h.consistent.sections] at hmem
    exact hd hmem
  have hcontent : ((Page.opened { p with requests := requests } d name).select d).sections.map content =
      p.sections.map content ++ [(d, [], [])] := by
    rw [content_select, Page.opened, List.map_append]
    rfl
  have hdlg : ((Page.opened { p with requests := requests } d name).select d).sections.map ChatSection.dlg =
      p.sections.map ChatSection.dlg ++ [d] := by
    have := congrArg (List.map Prod.fst) hcontent
    rwa [List.map_append, List.map_map, List.map_map] at this
  refine h.step ((hkeyed.opened hd).consistent_select ?_) rfl (List.append_nil _).symm
    (by simp [Entry.sent?]) (fun _ => ?_) (fun s' hs' heq => ?_) (fun d' _ hd' => ?_) (fun s' hs' hne => ?_)
  · exact List.mem_map_of_mem (List.mem_append_right _ List.mem_cons_self)
  · rw [hdlg]
    exact List.mem_append_right _ List.mem_cons_self
  · have hmem := List.mem_map_of_mem (f := content) hs'
    rw [hcontent, List.mem_append, List.mem_singleton] at hmem
    rw [hnone]
    refine ⟨[], rfl, ?_⟩
    rcases hmem with hmem | hnew
    · -- the section would have been there
      obtain ⟨s, hs, hsame⟩ := List.mem_map.1 hmem
      refine absurd ?_ hd
      rw [← h.consistent.sections, ← heq, ← (Prod.mk.inj hsame).1]
      exact List.mem_map_of_mem hs
    · obtain ⟨hmessages, hmenu⟩ := Prod.mk.inj (Prod.mk.inj hnew).2
      exact ⟨hmessages, hmenu⟩
  · rw [hdlg]
    exact List.mem_append_left _ hd'
  · have hmem := List.mem_map_of_mem (f := content) hs'
    rw [hcontent, List.mem_append, List.mem_singleton] at hmem
    exact hmem.resolve_right fun hnew => hne (Prod.mk.inj hnew).1

/-- A click on a close icon. -/
theorem Sound.close (h : p.Sound g_userId log) (hconsistent : p'.Consistent)
    (huser : p'.g_userId = p.g_userId) (hemitted : p'.emitted = p.emitted)
    (hcontent : p'.sections.map content = (p.closed d).sections.map content) :
    p'.Sound g_userId (log ++ [(d, .close)]) := by
  have hdlg : p'.sections.map ChatSection.dlg = (p.closed d).sections.map ChatSection.dlg :=
    dlg_of_content hcontent
  refine h.step hconsistent huser (hemitted.trans (List.append_nil _).symm) (by simp [Entry.sent?])
    (fun hsome => absurd hsome Bool.false_ne_true) (fun s' hs' heq => ?_) (fun d' hne hd' => ?_)
    (fun s' hs' _ => ?_)
  · have hmem : s'.dlg ∈ (p.closed d).sections.map ChatSection.dlg := hdlg ▸ List.mem_map_of_mem hs'
    obtain ⟨s, hs, hsame⟩ := List.mem_map.1 hmem
    exact absurd (hsame.trans heq) (of_decide_eq_true (List.mem_filter.1 hs).2)
  · obtain ⟨s, hs, rfl⟩ := List.mem_map.1 hd'
    rw [hdlg]
    exact List.mem_map_of_mem (List.mem_filter.2 ⟨hs, decide_eq_true hne⟩)
  · have hmem : content s' ∈ (p.closed d).sections.map content := hcontent ▸ List.mem_map_of_mem hs'
    obtain ⟨s, hs, hsame⟩ := List.mem_map.1 hmem
    exact hsame ▸ List.mem_map_of_mem (List.mem_of_mem_filter hs)

/-- Consistency is about ids and classes. -/
theorem Consistent.of_marks (h : p.Consistent) (htabs : p'.tabs = p.tabs)
    (hsections : p'.sections.map (fun s => (s.dlg, s.current)) = p.sections.map fun s => (s.dlg, s.current)) :
    p'.Consistent := by
  obtain ⟨⟨hnodup, hkeys⟩, cur, ⟨hst, hss⟩, hcur⟩ := h
  have hdlg : p'.sections.map ChatSection.dlg = p.sections.map ChatSection.dlg := by
    have := congrArg (List.map Prod.fst) hsections
    rwa [List.map_map, List.map_map] at this
  refine ⟨⟨htabs ▸ hnodup, by rw [hdlg, hkeys, htabs]⟩, cur, ⟨htabs ▸ hst, fun s' hs' => ?_⟩, htabs ▸ hcur⟩
  have hmem : (s'.dlg, s'.current) ∈ p'.sections.map fun s => (s.dlg, s.current) := List.mem_map_of_mem hs'
  rw [hsections] at hmem
  obtain ⟨s, hs, heq⟩ := List.mem_map.1 hmem
  obtain ⟨hd, hc⟩ := Prod.mk.inj heq
  rw [← hc, ← hd]
  exact hss s hs

/-- What is done with a section to which a message or members come. -/
structure Adds (f : ChatSection → ChatSection) (x : Entry) : Prop where
  next_eq : ∀ o, next o x = o.map (· ++ [x])
  dlg : ∀ s, (f s).dlg = s.dlg
  current : ∀ s, (f s).current = s.current
  messages : ∀ s, (f s).messages = s.messages ++ x.message?.toList
  menu : ∀ s, (f s).menu = s.menu ++ x.infos

theorem Adds.holds {f : ChatSection → ChatSection} {x : Entry} (h : Adds f x) {s : ChatSection}
    {l : List Entry} (hs : Holds s l) : Holds (f s) (l ++ [x]) := by
  refine ⟨?_, ?_⟩
  · rw [h.messages, hs.1, List.filterMap_append]
    cases x <;> rfl
  · rw [h.menu, hs.2, List.flatMap_append, List.flatMap_singleton]

/-- A step where a message or members come for a section, which may not be there. -/
theorem Sound.arrive (h : p.Sound g_userId log) {f : ChatSection → ChatSection} {x : Entry} (hf : Adds f x)
    (huser : p'.g_userId = p.g_userId) (htabs : p'.tabs = p.tabs)
    (hsections : p'.sections = (p.changed d f).sections) (hemitted : p'.emitted = p.emitted ++ x.sent?.toList)
    (hsent : ∀ m ∈ x.sent?, m.fromId = g_userId ∧ d = ⟨m.type, m.toId⟩) :
    p'.Sound g_userId (log ++ [(d, x)]) := by
  have hchanged : ∀ s, (if s.dlg = d then f s else s).dlg = s.dlg := by
    intro s
    split
    · exact hf.dlg s
    · rfl
  have hdlg : p'.sections.map ChatSection.dlg = p.sections.map ChatSection.dlg := by
    rw [hsections, changed, List.map_map]
    exact List.map_congr_left fun s _ => hchanged s
  refine h.step ?_ huser hemitted hsent (fun hsome => ?_) (fun s' hs' heq => ?_) (fun d' _ hd' => hdlg ▸ hd')
    (fun s' hs' hne => ?_)
  · refine h.consistent.of_marks htabs ?_
    rw [hsections, changed, List.map_map]
    refine List.map_congr_left fun s _ => ?_
    rw [Function.comp_apply]
    split
    · rw [hf.dlg, hf.current]
    · rfl
  · rw [hf.next_eq, Option.isSome_map] at hsome
    exact hdlg ▸ h.opened d hsome
  · rw [hsections] at hs'
    obtain ⟨s, hs, rfl⟩ := List.mem_map.1 hs'
    rw [hchanged] at heq
    obtain ⟨l, hshown, hholds⟩ := h.sections s hs
    rw [heq] at hshown
    rw [if_pos heq, hshown, hf.next_eq]
    exact ⟨l ++ [x], rfl, hf.holds hholds⟩
  · rw [hsections] at hs'
    obtain ⟨s, hs, rfl⟩ := List.mem_map.1 hs'
    rw [hchanged] at hne
    rw [if_neg hne]
    exact List.mem_map_of_mem hs

/-! ## The events -/

theorem adds_message (m : PageMessage) :
    Adds (fun s => { s with messages := s.messages ++ [m] }) (.message m) where
  next_eq _ := rfl
  dlg _ := rfl
  current _ := rfl
  messages _ := rfl
  menu _ := (List.append_nil _).symm

theorem adds_members (infos : List (Bytes × Bytes)) :
    Adds (fun s => { s with menu := s.menu ++ infos }) (.members infos) where
  next_eq _ := rfl
  dlg _ := rfl
  current _ := rfl
  messages _ := (List.append_nil _).symm
  menu _ := rfl

/-- A message of another user. -/
theorem Sound.left (h : p.Sound g_userId log) (d : DlgId) (data : NetMessage) :
    (p.appendMessage d (.left data)).page.Sound g_userId (log ++ [(d, .message (.left data))]) := by
  rw [appendMessage_eq h.consistent.toKeyed]
  exact h.arrive (adds_message _) rfl rfl rfl (List.append_nil _).symm (by simp [Entry.sent?])

/-- A message of the user. -/
theorem Sound.sendClick (h : p.Sound g_userId log) (s : ChatSection) (text : Bytes) (now : UInt64) :
    (p.sendClick s text now).page.Sound g_userId
      (log ++ [(s.dlg, .message (.right (p.dataOf s text now)))]) := by
  rw [sendClick_eq h.consistent.toKeyed]
  refine h.arrive (adds_message _) rfl rfl rfl rfl fun m hm => ?_
  obtain rfl := Option.some.inj hm
  exact ⟨h.userId, rfl⟩

/-- The members of a group; the section may be closed again. -/
theorem Sound.appendGroupMember (h : p.Sound g_userId log) (groupId : Bytes)
    (data : Option (List (Option Bytes))) :
    (appendGroupMember { p with requests := p.requests.erase groupId } groupId data).page.Sound g_userId
      (log ++ p.entries (.groupMember groupId data)) := by
  cases data with
  | none =>
    exact h.rearrange (h.consistent.of_tabs rfl rfl) (.refl rfl rfl rfl)
  | some dataObj =>
    have hf := adds_members (Web.infos dataObj)
    unfold Page.appendGroupMember onSection
    dsimp only
    by_cases hd : (⟨.group, groupId⟩ : DlgId) ∈ p.sections.map ChatSection.dlg
    · rw [modifyKey_eq _ h.consistent.nodup_sections hd]
      exact h.arrive hf rfl rfl rfl (List.append_nil _).symm (by simp [Entry.sent?])
    · rw [modifyKey_eq_none _ hd]
      refine h.arrive hf rfl rfl ?_ (List.append_nil _).symm (by simp [Entry.sent?])
      exact (map_key_of_notMem hd).symm

theorem Sound.handlePeerChat (h : p.Sound g_userId log) (userId nickName : Bytes) :
    (p.handlePeerChat userId nickName).page.Sound g_userId (log ++ [(⟨.peer, userId⟩, .click)]) := by
  rw [handlePeerChat_eq h.consistent]
  split
  · next hd => exact h.click_select hd
  · next hd => exact h.click_opened hd nickName

theorem Sound.handleGroupChat (h : p.Sound g_userId log) (groupId groupName : Bytes) :
    (p.handleGroupChat groupId groupName).page.Sound g_userId (log ++ [(⟨.group, groupId⟩, .click)]) := by
  rw [handleGroupChat_eq h.consistent]
  split
  · next hd => exact h.click_select hd
  · next hd => exact h.click_opened hd groupName

theorem Sound.handleCloseClick (h : p.Sound g_userId log) (hi : p.tabs[i]? = some tab) :
    (p.handleCloseClick i).page.Sound g_userId (log ++ [(tab.dlg, .close)]) := by
  obtain ⟨p', heq, hconsistent, hclosed⟩ := handleCloseClick_spec h.consistent hi
  rw [heq]
  rcases hclosed with rfl | ⟨d, rfl⟩
  · exact h.close hconsistent rfl rfl rfl
  · exact h.close hconsistent rfl rfl (content_select d)

/-- **Every handler keeps the page sound.** -/
theorem Sound.handle (h : p.Sound g_userId log) {e : Event} {o : Outcome} (ho : p.handle e = some o) :
    o.page.Sound g_userId (log ++ p.entries e) := by
  cases e with
  | friendsList data =>
    obtain rfl := Option.some.inj ho
    cases data <;> exact h.rearrange (h.consistent.of_tabs rfl rfl) (.refl rfl rfl rfl)
  | groupsList data =>
    obtain rfl := Option.some.inj ho
    cases data <;> exact h.rearrange (h.consistent.of_tabs rfl rfl) (.refl rfl rfl rfl)
  | groupMember groupId data =>
    obtain ⟨-, ho⟩ := Option.ite_none_right_eq_some.1 ho
    obtain rfl := Option.some.inj ho
    exact h.appendGroupMember groupId data
  | clickFriend i =>
    obtain ⟨friend, hfriend, rfl⟩ := Option.map_eq_some_iff.1 ho
    rw [entries, hfriend]
    exact h.handlePeerChat friend.1 friend.2
  | clickGroup i =>
    obtain ⟨group, hgroup, rfl⟩ := Option.map_eq_some_iff.1 ho
    rw [entries, hgroup]
    exact h.handleGroupChat group.1 group.2
  | clickTab i =>
    obtain ⟨hlt, ho⟩ := Option.ite_none_right_eq_some.1 ho
    obtain rfl := Option.some.inj ho
    obtain ⟨cur, hshows, -⟩ := h.consistent.current
    have hi := List.getElem?_eq_getElem hlt
    rw [handleChatClick_eq h.consistent.toKeyed hshows hi]
    exact h.rearrange (h.consistent.toKeyed.consistent_select (List.mem_map_of_mem (List.getElem_mem hlt)))
      ((Rearranged.refl rfl rfl rfl).select _)
  | clickClose i =>
    obtain ⟨hlt, ho⟩ := Option.ite_none_right_eq_some.1 ho
    obtain rfl := Option.some.inj ho
    rw [entries, List.getElem?_eq_getElem hlt]
    exact h.handleCloseClick (List.getElem?_eq_getElem hlt)
  | clickSend i text now =>
    obtain ⟨s, hs, rfl⟩ := Option.map_eq_some_iff.1 ho
    rw [entries, hs]
    exact h.sendClick s text now
  | peerMessage data =>
    obtain rfl := Option.some.inj ho
    exact h.left _ data
  | groupMessage data =>
    obtain rfl := Option.some.inj ho
    by_cases hown : data.fromId ≠ some p.g_userId
    · rw [appendNetGroupMsg, entries, if_pos hown, if_pos hown]
      exact h.left _ data
    · rw [appendNetGroupMsg, entries, if_neg hown, if_neg hown]
      exact h.rearrange h.consistent (.refl rfl rfl rfl)

end Steps

/-! ## Runs -/

/-- **The page, whatever the user does and whatever comes**: every tab has its section and there are no two of
one friend or group, one tab and its section are shown if there are any, the sections are those that were
opened by a click and not closed since, each holds what has come for it since then, and what is sent names the
user and who the section is for. Of the handlers, only those of answers throw, if the answer is no JSON or the
section of the group is closed. -/
theorem sound_page_of_run (g_userId : Bytes) {es : List Event} {r : Record}
    (hrun : Run Record.step (fun _ _ => True) ⟨new g_userId, []⟩ es r) :
    r.page.Sound g_userId r.log ∧
      ∀ e o, r.page.handle e = some o → (o.isThrown = true ↔ r.page.Fails e) := by
  have hsound : r.page.Sound g_userId r.log := by
    refine hrun.invariant (I := fun r => r.page.Sound g_userId r.log) (fun r e r' h _ hstep => ?_)
      (sound_new g_userId)
    obtain ⟨-, hstep⟩ := Option.ite_none_right_eq_some.1 hstep
    obtain ⟨o, ho, rfl⟩ := Option.map_eq_some_iff.1 hstep
    exact h.handle ho
  exact ⟨hsound, fun e o ho => isThrown_iff hsound.consistent ho⟩

/-- Two windows are opened, in the first something comes and something is sent, and the second is closed. -/
def twoWindows : List Event :=
  [.friendsList (some [some (ascii "2"), some (ascii "b"), none, some (ascii "3"), none, none]),
    .groupsList (some [some (ascii "7"), some (ascii "g"), none]), .clickFriend 0, .clickGroup 0,
    .peerMessage ⟨none, some 5, some 0, some (ascii "2"), some (ascii "1"), none, ascii "hi", ascii "peer"⟩,
    .clickSend 0 (ascii "ho") 6, .clickClose 1]

theorem sound_page_twoWindows : ∃ r : Record,
    Run Record.step (fun _ _ => True) ⟨new (ascii "1"), []⟩ twoWindows r ∧ r.page.Sound (ascii "1") r.log ∧
      r.page.tabs = [⟨⟨.peer, ascii "2"⟩, ascii "b", true⟩] ∧ r.log.length = 5 ∧
        r.page.requests = [ascii "7"] ∧ r.page.Fails (.groupMember (ascii "7") (some [])) := by
  have hexec : (exec Record.step (fun _ _ => True) ⟨new (ascii "1"), []⟩ twoWindows).any (fun r =>
      decide (r.page.tabs = [⟨⟨.peer, ascii "2"⟩, ascii "b", true⟩] ∧ r.log.length = 5 ∧
        r.page.requests = [ascii "7"])) = true := by
    decide +kernel
  obtain ⟨r, hrun, htabs, hlog, hrequests⟩ := Run.exists_of_exec hexec
  have hthrown : (⟨.group, ascii "7"⟩ : DlgId) ∉ r.page.tabs.map Tab.dlg := by rw [htabs]; decide
  exact ⟨r, hrun, (sound_page_of_run (ascii "1") hrun).1, htabs, hlog, hrequests, .inr hthrown⟩

end Page

end MutexIM.Web
