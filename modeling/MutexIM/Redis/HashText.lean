import MutexIM.Redis.CRedis

/-!
# The text of an `HMSET`

`HMSet` puts the name, the fields and the values into one text, and `redisCommand` splits it again and
takes it for a format.

* `formatWords_flatMap`: the words of a text that is made of words without blanks.
* `hmset_exact_iff`: what is stored is what was given, for every content of Redis, if and only if no part
  of it is empty or has a blank or a percent sign.
* `value_with_blank`: a value of two words.
-/

namespace MutexIM.CRedis

open Bytes

/-- Each field with its value. -/
def flat (mapValue : List (Bytes × Bytes)) : List Bytes := mapValue.flatMap fun e => [e.1, e.2]

/-- The name, and each field with its value. -/
def parts (hashMapName : Bytes) (mapValue : List (Bytes × Bytes)) : List Bytes :=
  hashMapName :: flat mapValue

/-- No part of the command is empty, or has a byte that means something in a format. -/
def Storable (hashMapName : Bytes) (mapValue : List (Bytes × Bytes)) : Prop :=
  ∀ w ∈ parts hashMapName mapValue, w ≠ [] ∧ Plain w

/-- `HMSet` on a key that is not there and `HGetAll` give back the map; and `HMSet` changes no other key and
no other field. -/
structure Exact (hashMapName : Bytes) (mapValue : List (Bytes × Bytes)) : Prop where
  roundTrip : ∀ r : Redis, r.keys hashMapName = none →
    ∃ r', hmset r hashMapName mapValue = some r' ∧
      ∀ f v, (hgetAll r' hashMapName).lookup f = some v ↔ (f, v) ∈ mapValue
  otherKeys : ∀ r r' : Redis, hmset r hashMapName mapValue = some r' →
    ∀ k, k ≠ hashMapName → r'.keys k = r.keys k
  otherFields : ∀ r r' : Redis, hmset r hashMapName mapValue = some r' →
    ∀ f, f ∉ mapValue.map Prod.fst →
      (r'.keys.hashAt hashMapName).lookup f = (r.keys.hashAt hashMapName).lookup f

variable {hashMapName f v : Bytes} {mapValue fvs : List (Bytes × Bytes)} {ws rest : List Bytes} {r r' : Redis}

@[simp] theorem flat_cons (e : Bytes × Bytes) (l : List (Bytes × Bytes)) :
    flat (e :: l) = e.1 :: e.2 :: flat l := rfl

theorem mem_parts {w : Bytes} : w ∈ parts hashMapName mapValue ↔
    w = hashMapName ∨ ∃ e ∈ mapValue, w = e.1 ∨ w = e.2 := by
  simp [parts, flat]

/-! ## The words of the text -/

theorem hmsetText_eq_flatMap : hmsetText hashMapName mapValue =
    (ascii "HMSET" :: parts hashMapName mapValue).flatMap (· ++ [32]) := by
  have hmap : (mapValue.flatMap fun e => e.1 ++ ascii " " ++ e.2 ++ ascii " ") =
      (flat mapValue).flatMap (· ++ [32]) := by
    rw [flat, List.flatMap_assoc]
    simp [ascii]
  rw [hmsetText, hmap, parts, List.flatMap_cons, List.flatMap_cons]
  simp [ascii]

theorem nulFree_flatMap (h : ∀ w ∈ ws, NulFree w) : NulFree (ws.flatMap (· ++ [32])) := by
  intro c hc
  obtain ⟨w, hw, hc⟩ := List.mem_flatMap.1 hc
  rcases List.mem_append.1 hc with hc | hc
  · exact h w hw c hc
  · rw [List.mem_singleton.1 hc]
    decide

/-- **The words of a text of words.** -/
theorem formatWords_flatMap (h : ∀ w ∈ ws, w ≠ [] ∧ 32 ∉ w) :
    formatWords [] false (ws.flatMap (· ++ [32])) = ws.mapM unescape := by
  induction ws with
  | nil => rfl
  | cons w ws ih =>
    obtain ⟨hne, hblank⟩ := h w List.mem_cons_self
    rw [List.flatMap_cons, List.append_assoc, List.singleton_append, formatWords_word hblank,
      ih fun w hw => h w (List.mem_cons_of_mem _ hw), List.mapM_cons]
    simp only [hne, ne_eq, not_false_eq_true, or_true, if_true, List.nil_append]
    cases unescape w <;> cases ws.mapM unescape <;> rfl

/-- A word is not empty, and has no blank. -/
theorem ne_nil_of_formatWords {cur s w : Bytes} {touched : Bool} (ht : touched = true → cur ≠ [])
    (h : formatWords cur touched s = some ws) (hw : w ∈ ws) : w ≠ [] := by
  induction cur, touched, s using formatWords.induct generalizing ws with
  | case1 cur touched =>
    obtain rfl := Option.some.inj h
    cases touched with
    | false => cases hw
    | true => exact List.mem_singleton.1 hw ▸ ht rfl
  | case2 cur touched c =>
    obtain rfl := Option.some.inj h
    by_cases hc : c = 32
    · rw [if_pos hc] at hw
      cases touched with
      | false => cases hw
      | true => exact List.mem_singleton.1 hw ▸ ht rfl
    · rw [if_neg hc] at hw
      rw [List.mem_singleton.1 hw]
      simp
  | case3 cur touched s ih =>
    rw [formatWords, if_pos rfl, if_pos rfl] at h
    exact ih (by simp) h hw
  | case4 cur touched d s hd =>
    rw [formatWords, if_pos rfl, if_neg hd] at h
    cases h
  | case5 cur touched d s hne ih =>
    rw [formatWords_blank] at h
    obtain ⟨ws', hws', rfl⟩ := Option.map_eq_some_iff.1 h
    cases touched with
    | false => exact ih (by simp) hws' hw
    | true =>
      rcases List.mem_cons.1 hw with rfl | hw
      · exact ht rfl
      · exact ih (by simp) hws' hw
  | case6 cur touched c d s hc hblank ih =>
    rw [formatWords_cons hc hblank] at h
    exact ih (by simp) h hw

/-! ## Parts that mean nothing in a format -/

theorem fieldValues_cons (hne : rest ≠ []) :
    fieldValues (f :: v :: rest) = (fieldValues rest).map ((f, v) :: ·) := by
  cases rest with
  | nil => exact absurd rfl hne
  | cons w rest => rfl

theorem fieldValues_flat (hne : mapValue ≠ []) :
    fieldValues (flat mapValue) = some mapValue := by
  induction mapValue with
  | nil => exact absurd rfl hne
  | cons e l ih =>
    cases l with
    | nil => rfl
    | cons e' l =>
      have hrest : flat (e' :: l) ≠ [] := List.cons_ne_nil _ _
      rw [flat_cons, fieldValues_cons hrest, ih (List.cons_ne_nil _ _), Option.map_some]

theorem Storable.hmset_eq (h : Storable hashMapName mapValue) (hne : mapValue ≠ []) (r : Redis) :
    hmset r hashMapName mapValue = some { r with keys := (r.keys.hmset hashMapName mapValue).2 } := by
  have hplain : ∀ w ∈ ascii "HMSET" :: parts hashMapName mapValue, w ≠ [] ∧ Plain w := by
    intro w hw
    rcases List.mem_cons.1 hw with rfl | hw
    · decide
    · exact h w hw
  have hwords : (ascii "HMSET" :: parts hashMapName mapValue).filter (· ≠ []) =
      ascii "HMSET" :: parts hashMapName mapValue :=
    List.filter_eq_self.2 fun w hw => by simpa using (hplain w hw).1
  rw [hmset, if_neg hne, hmsetText_eq_flatMap, formatCommand_flatMap fun w hw => (hplain w hw).2, hwords]
  simp only [parts, Option.map_some, fieldValues_flat hne]

/-- What `HGetAll` reads where a hash was set that was not there. -/
theorem lookup_hgetAll_hmset (hname : NulFree hashMapName) (hnul : ∀ e ∈ fvs, NulFree e.1)
    (hr : r.keys hashMapName = none) (f : Bytes) :
    (hgetAll { r with keys := (r.keys.hmset hashMapName fvs).2 } hashMapName).lookup f =
      (insertAll ∅ fvs).lookup f := by
  have hself : (r.keys.hmset hashMapName fvs).2.hashAt hashMapName = insertAll ∅ fvs := by
    rw [Keyspace.hashAt, Keyspace.hmset, hr]
    simp only [Function.update_self]
    rfl
  rw [lookup_hgetAll, cstr_eq_self hname, hself]
  rw [cstr_eq_self hname, hself]
  intro f hf
  obtain ⟨v, hv⟩ := Option.isSome_iff_exists.1 (AList.lookup_isSome.2 hf)
  rcases mem_of_lookup_insertAll hv with hmem | hempty
  · exact hnul _ hmem
  · rw [AList.lookup_empty] at hempty
    cases hempty

/-- What is set is there, whether the fields are new or not. -/
theorem Storable.exact (h : Storable hashMapName mapValue) (hne : mapValue ≠ [])
    (hkeys : (mapValue.map Prod.fst).Nodup) : Exact hashMapName mapValue := by
  have hnul : ∀ w ∈ parts hashMapName mapValue, NulFree w := fun w hw c hc => ((h w hw).2 c hc).1
  have hfields : ∀ e ∈ mapValue, NulFree e.1 := fun e he =>
    hnul _ (List.mem_cons_of_mem _ (List.mem_flatMap.2 ⟨e, he, List.mem_cons_self⟩))
  refine ⟨fun r hr => ⟨_, h.hmset_eq hne r, fun f v => ?_⟩, fun r r' hr' k hk => ?_,
    fun r r' hr' f hf => ?_⟩
  · rw [lookup_hgetAll_hmset (hnul _ List.mem_cons_self) hfields hr]
    exact lookup_insertAll_eq_some hkeys
  · obtain rfl := Option.some.inj ((h.hmset_eq hne r).symm.trans hr')
    exact Keyspace.hmset_of_ne hk
  · obtain rfl := Option.some.inj ((h.hmset_eq hne r).symm.trans hr')
    exact Keyspace.lookup_hmset_of_notMem hf

/-! ## What a map that is given back says about its parts -/

/-- A field and its value, and what the conversions make of them. -/
def Unescaped (e e' : Bytes × Bytes) : Prop := unescape e.1 = some e'.1 ∧ unescape e.2 = some e'.2

/-- The fields and values as the words of the command. -/
theorem mapM_unescape_flat (h : (flat mapValue).mapM unescape = some rest) :
    ∃ fvs, rest = flat fvs ∧ List.Forall₂ Unescaped mapValue fvs := by
  induction mapValue generalizing rest with
  | nil =>
    obtain rfl := Option.some.inj h
    exact ⟨[], rfl, .nil⟩
  | cons e l ih =>
    rw [flat_cons, List.mapM_cons, List.mapM_cons] at h
    obtain ⟨f, hf, h⟩ := Option.bind_eq_some_iff.1 h
    obtain ⟨ws, hws, h⟩ := Option.bind_eq_some_iff.1 h
    obtain ⟨v, hv, hws⟩ := Option.bind_eq_some_iff.1 hws
    obtain ⟨ws', hws', heq⟩ := Option.bind_eq_some_iff.1 hws
    obtain ⟨fvs, rfl, hall⟩ := ih hws'
    obtain rfl := Option.some.inj heq
    obtain rfl := Option.some.inj h
    exact ⟨(f, v) :: fvs, rfl, .cons ⟨hf, hv⟩ hall⟩

/-- The number of bytes of the fields and values. -/
def size (fvs : List (Bytes × Bytes)) : ℕ := (fvs.flatMap fun e => e.1 ++ e.2).length

/-- If no byte is lost, there is no percent sign. -/
theorem notMem_of_size (h : List.Forall₂ Unescaped mapValue fvs) :
    size fvs ≤ size mapValue ∧
      (size fvs = size mapValue → ∀ e ∈ mapValue, 37 ∉ e.1 ∧ 37 ∉ e.2) := by
  induction h with
  | nil => exact ⟨le_rfl, fun _ e he => absurd he List.not_mem_nil⟩
  | @cons e e' l fvs he _ ih =>
    obtain ⟨hf, hfpercent⟩ := length_of_unescape he.1
    obtain ⟨hv, hvpercent⟩ := length_of_unescape he.2
    obtain ⟨hle, hall⟩ := ih
    simp only [size, List.flatMap_cons, List.length_append] at hle hall ⊢
    refine ⟨by omega, fun heq x hx => ?_⟩
    rcases List.mem_cons.1 hx with rfl | hx
    · exact ⟨(hfpercent (by omega)).2, (hvpercent (by omega)).2⟩
    · exact hall (by omega) x hx

/-- The words of the command are the parts after the conversions. -/
theorem unescape_parts (hnul : ∀ w ∈ parts hashMapName mapValue, NulFree w)
    (hwords : ∀ w ∈ parts hashMapName mapValue, w ≠ [] ∧ 32 ∉ w) {c k : Bytes}
    (h : formatCommand (hmsetText hashMapName mapValue) = some (c :: k :: rest)) :
    unescape hashMapName = some k ∧ (flat mapValue).mapM unescape = some rest := by
  have hnul' : ∀ w ∈ ascii "HMSET" :: parts hashMapName mapValue, NulFree w := by
    intro w hw
    rcases List.mem_cons.1 hw with rfl | hw
    · decide
    · exact hnul w hw
  have hwords' : ∀ w ∈ ascii "HMSET" :: parts hashMapName mapValue, w ≠ [] ∧ 32 ∉ w := by
    intro w hw
    rcases List.mem_cons.1 hw with rfl | hw
    · decide
    · exact hwords w hw
  rw [formatCommand, hmsetText_eq_flatMap, cstr_eq_self (nulFree_flatMap hnul'),
    formatWords_flatMap hwords', parts, List.mapM_cons, List.mapM_cons] at h
  obtain ⟨w, -, h⟩ := Option.bind_eq_some_iff.1 h
  obtain ⟨ws, hws, h⟩ := Option.bind_eq_some_iff.1 h
  obtain ⟨k', hk', hws⟩ := Option.bind_eq_some_iff.1 hws
  obtain ⟨rest', hrest', heq⟩ := Option.bind_eq_some_iff.1 hws
  obtain rfl := Option.some.inj heq
  obtain ⟨-, heq⟩ := List.cons.inj (Option.some.inj h)
  obtain ⟨rfl, rfl⟩ := List.cons.inj heq
  exact ⟨hk', hrest'⟩

/-- A map that is given back was the arguments of the command. -/
theorem command_of_exact (h : Exact hashMapName mapValue) (hname : NulFree hashMapName)
    (hne : mapValue ≠ []) : ∃ c rest fvs,
      formatCommand (hmsetText hashMapName mapValue) = some (c :: hashMapName :: rest) ∧
        fieldValues rest = some fvs ∧ ∀ f v, (insertAll ∅ fvs).lookup f = some v ↔ (f, v) ∈ mapValue := by
  obtain ⟨r', hr', hback⟩ := h.roundTrip ⟨fun _ => none, []⟩ rfl
  rcases keys_hmset_cases hr' hashMapName with hkey | ⟨c, rest, fvs, hargs, hfvs, hkeys⟩
  · obtain ⟨e, he⟩ := List.exists_mem_of_ne_nil _ hne
    have hlookup := (hback e.1 e.2).2 he
    rw [hgetAll, cstr_eq_self hname, Keyspace.hgetall, hkey] at hlookup
    cases hlookup
  · refine ⟨c, rest, fvs, hargs, hfvs, fun f v => ?_⟩
    have hnul : ∀ e ∈ fvs, NulFree e.1 := by
      intro e he b hb hzero
      have hw := List.mem_cons_of_mem c (List.mem_cons_of_mem hashMapName
        (fieldValues_subset hfvs (List.mem_map_of_mem he)))
      rcases mem_of_formatWords hargs hw hb with hmem | ⟨hmem, -⟩
      · cases hmem
      · exact nulFree_cstr _ b hmem hzero
    rw [← hback, ← lookup_hgetAll_hmset hname hnul (r := ⟨fun _ => none, []⟩) rfl, hgetAll, hgetAll, hkeys]

/-- The words of a command are not empty and have no blank. -/
theorem word_of_formatCommand {s w : Bytes} {ws : List Bytes} (h : formatCommand s = some ws)
    (hw : w ∈ ws) : w ≠ [] ∧ 32 ∉ w := by
  refine ⟨ne_nil_of_formatWords (fun h => absurd h (by decide)) h hw, fun hblank => ?_⟩
  rcases mem_of_formatWords h hw hblank with hmem | ⟨-, hmem⟩
  · cases hmem
  · exact hmem rfl

/-- **What is given back is stored.** -/
theorem Exact.storable (h : Exact hashMapName mapValue) (hne : mapValue ≠ [])
    (hnul : ∀ w ∈ parts hashMapName mapValue, NulFree w) (hkeys : (mapValue.map Prod.fst).Nodup) :
    Storable hashMapName mapValue := by
  obtain ⟨c, rest, fvs, hargs, hfvs, hback⟩ := command_of_exact h (hnul _ List.mem_cons_self) hne
  have hsubset : mapValue ⊆ fvs := by
    intro e he
    refine (mem_of_lookup_insertAll ((hback e.1 e.2).2 he)).resolve_right fun hempty => ?_
    rw [AList.lookup_empty] at hempty
    cases hempty
  -- every part is a word of the command
  have hmem : ∀ w ∈ parts hashMapName mapValue, w ∈ c :: hashMapName :: rest := by
    intro w hw
    obtain rfl | ⟨e, he, rfl | rfl⟩ := mem_parts.1 hw
    · exact List.mem_cons_of_mem _ List.mem_cons_self
    · exact List.mem_cons_of_mem _ (List.mem_cons_of_mem _
        (fieldValues_subset hfvs (List.mem_map_of_mem (hsubset he))))
    · exact List.mem_cons_of_mem _ (List.mem_cons_of_mem _
        (fieldValues_subset_snd hfvs (List.mem_map_of_mem (hsubset he))))
  have hwords : ∀ w ∈ parts hashMapName mapValue, w ≠ [] ∧ 32 ∉ w :=
    fun w hw => word_of_formatCommand hargs (hmem w hw)
  obtain ⟨hname, hrest⟩ := unescape_parts hnul hwords hargs
  obtain ⟨fvs', rfl, hall⟩ := mapM_unescape_flat hrest
  have hne' : fvs' ≠ [] := by
    rintro rfl
    cases hall
    exact hne rfl
  rw [fieldValues_flat hne'] at hfvs
  obtain rfl := Option.some.inj hfvs
  have hperm : mapValue.Perm fvs' :=
    (List.subperm_of_subset (List.Nodup.of_map _ hkeys) hsubset).perm_of_length_le hall.length_eq.ge
  have hpercent := (notMem_of_size hall).2 (hperm.flatMap_right _).length_eq.symm
  have hpercent' : ∀ w ∈ parts hashMapName mapValue, 37 ∉ w := by
    intro w hw
    obtain rfl | ⟨e, he, rfl | rfl⟩ := mem_parts.1 hw
    · exact ((length_of_unescape hname).2 rfl).2
    · exact (hpercent e he).1
    · exact (hpercent e he).2
  refine fun w hw => ⟨(hwords w hw).1, fun b hb => ⟨hnul w hw b hb, ?_, ?_⟩⟩
  · rintro rfl
    exact hpercent' w hw hb
  · rintro rfl
    exact (hwords w hw).2 hb

/-- **When an `HMSET` stores what it was given.** For a name, fields and values that are C strings, and at
least one field: `HMSet` and `HGetAll` give back the map, and nothing else changes, if and only if the name,
the fields and the values are not empty and have no blank and no percent sign. -/
theorem hmset_exact_iff (hashMapName : Bytes) (mapValue : List (Bytes × Bytes)) (hne : mapValue ≠ [])
    (hnul : ∀ w ∈ parts hashMapName mapValue, NulFree w) (hkeys : (mapValue.map Prod.fst).Nodup) :
    Exact hashMapName mapValue ↔ Storable hashMapName mapValue :=
  ⟨fun h => h.storable hne hnul hkeys, fun h => h.exact hne hkeys⟩

/-- The address and the port of a server. -/
theorem hmset_exact_loginMap :
    Exact (ascii "loginMap:a") [(ascii "address", ascii "h"), (ascii "port", ascii "1")] :=
  (hmset_exact_iff (ascii "loginMap:a") [(ascii "address", ascii "h"), (ascii "port", ascii "1")]
    (by decide) (by decide) (by decide)).2 (by unfold Storable; decide)

/-- The value `b c` is sent as two words, so that the number of arguments is odd. -/
theorem value_with_blank :
    (hmset ⟨fun _ => none, []⟩ (ascii "h") [(ascii "a", ascii "b c")]).map
        (fun r => r.keys (ascii "h")) = some none ∧
      ¬Exact (ascii "h") [(ascii "a", ascii "b c")] := by
  have hnone : (hmset ⟨fun _ => none, []⟩ (ascii "h") [(ascii "a", ascii "b c")]).map
      (fun r => r.keys (ascii "h")) = some none := by decide +kernel
  refine ⟨hnone, fun h => ?_⟩
  obtain ⟨r', hr', hback⟩ := h.roundTrip ⟨fun _ => none, []⟩ rfl
  rw [hr'] at hnone
  have hkey : r'.keys (ascii "h") = none := Option.some.inj hnone
  have hlookup := (hback (ascii "a") (ascii "b c")).2 List.mem_cons_self
  rw [hgetAll, cstr_eq_self (by decide), Keyspace.hgetall, hkey] at hlookup
  cases hlookup

end MutexIM.CRedis
