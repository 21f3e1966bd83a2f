import MutexIM.Web.Sessions

/-!
# The options of a cookie

`cookieSerialize` takes the attributes of a cookie as the entries of an object. Its first step is meant to
put in an empty object where none was passed, but `|` is the bitwise operator: whatever was passed, a
number comes out, and a number has no entries.

* `pushAttributes_object`: with its entries, an object gives the attributes that were asked for.
* `cookieSerialize_eq`: no attribute gets through.
* `splitOn_cookieSerialize_iff`: the header says what was asked exactly if no attribute was asked for.
-/

namespace MutexIM.Web

open Bytes

namespace SetCookie

/-! ## Values of JavaScript -/

/-- The values that the entries of an object may have, as far as `if` and `+` use them. -/
structure Values where
  Value : Type
  undefined : Value
  truthy : Value → Bool
  /-- What `+` appends to a string. -/
  text : Value → Bytes
  truthy_undefined : truthy undefined = false

/-- The entries of the options that are read. -/
inductive Attribute
  | maxAge | domain | path | httpOnly | secure
  deriving DecidableEq

/-- What the variable `opt` holds. An entry that an object does not have is `undefined`. -/
inductive Opt (J : Values)
  | object (entries : Attribute → J.Value)
  | number (n : BitVec 32)

variable {J : Values}

namespace Opt

/-- The operand of a bitwise operator. An object is first made a string, which is not a number. -/
def toInt32 : Opt J → BitVec 32
  | .object _ => 0
  | .number n => n

/-- `a | b`. -/
def bitOr (a b : Opt J) : Opt J := .number (a.toInt32 ||| b.toInt32)

/-- `opt.maxAge` and so on. -/
def get : Opt J → Attribute → J.Value
  | .object entries, a => entries a
  | .number _, _ => J.undefined

end Opt

/-! ## The header -/

/-- The tests of `cookieSerialize` and what they push. -/
def pushAttributes (pairs : List Bytes) (opt : Opt J) : List Bytes :=
  let pairs := if J.truthy (opt.get .maxAge) then
    pairs ++ [ascii "Max-Age=" ++ J.text (opt.get .maxAge)] else pairs
  let pairs := if J.truthy (opt.get .domain) then
    pairs ++ [ascii "Domain=" ++ J.text (opt.get .domain)] else pairs
  let pairs := if J.truthy (opt.get .path) then
    pairs ++ [ascii "Path=" ++ J.text (opt.get .path)] else pairs
  let pairs := if J.truthy (opt.get .httpOnly) then pairs ++ [ascii "HttpOnly"] else pairs
  if J.truthy (opt.get .secure) then pairs ++ [ascii "Secure"] else pairs

def semicolon : UInt8 := 59

def cookieSerialize (name val : Bytes) (opt : Opt J) : Bytes :=
  let pairs := [name ++ ascii "=" ++ val]
  let opt := opt.bitOr (.object fun _ => J.undefined)
  [semicolon].intercalate (pushAttributes pairs opt)

/-! ## What was asked for -/

namespace Attribute

/-- The attributes in the order of the header. -/
def all : List Attribute := [maxAge, domain, path, httpOnly, secure]

theorem mem_all (a : Attribute) : a ∈ all := by cases a <;> decide

/-- An attribute of the header. -/
def render (a : Attribute) (v : J.Value) : Bytes :=
  match a with
  | maxAge => ascii "Max-Age=" ++ J.text v
  | domain => ascii "Domain=" ++ J.text v
  | path => ascii "Path=" ++ J.text v
  | httpOnly => ascii "HttpOnly"
  | secure => ascii "Secure"

theorem semicolon_notMem_render {a : Attribute} {v : J.Value} (h : semicolon ∉ J.text v) :
    semicolon ∉ a.render v := by
  cases a with
  | maxAge => exact fun hm => (List.mem_append.1 hm).elim (by decide) h
  | domain => exact fun hm => (List.mem_append.1 hm).elim (by decide) h
  | path => exact fun hm => (List.mem_append.1 hm).elim (by decide) h
  | httpOnly => exact (by decide : semicolon ∉ ascii "HttpOnly")
  | secure => exact (by decide : semicolon ∉ ascii "Secure")

end Attribute

/-- The attributes for which the options have a truthy entry. -/
def asked (entries : Attribute → J.Value) : List Bytes :=
  (Attribute.all.filter fun a => J.truthy (entries a)).map fun a => a.render (entries a)

theorem asked_eq_nil_iff {entries : Attribute → J.Value} :
    asked entries = [] ↔ ∀ a, J.truthy (entries a) = false := by
  rw [asked, List.map_eq_nil_iff, List.filter_eq_nil_iff]
  exact ⟨fun h a => Bool.eq_false_iff.2 (h a a.mem_all), fun h a _ => Bool.eq_false_iff.1 (h a)⟩

/-! ## What the header says -/

theorem push_eq (b : Bool) (pairs : List Bytes) (x : Bytes) :
    (if b then pairs ++ [x] else pairs) = pairs ++ if b then [x] else [] := by
  cases b
  · exact (List.append_nil pairs).symm
  · rfl

theorem map_ite_cons {α β : Type} (b : Bool) (f : α → β) (a : α) (l : List α) :
    (if b then a :: l else l).map f = (if b then [f a] else []) ++ l.map f := by
  cases b <;> rfl

theorem pushAttributes_object (pairs : List Bytes) (entries : Attribute → J.Value) :
    pushAttributes pairs (.object entries) = pairs ++ asked entries := by
  simp only [pushAttributes, push_eq]
  simp only [Opt.get, asked, Attribute.all, List.filter_cons, map_ite_cons, List.filter_nil,
    List.map_nil, List.append_nil, List.append_assoc, Attribute.render]
  rfl

theorem pushAttributes_number (pairs : List Bytes) (n : BitVec 32) :
    pushAttributes pairs (.number n : Opt J) = pairs := by
  simp [pushAttributes, Opt.get, J.truthy_undefined]

/-- The tests alone would give what was asked for. -/
theorem splitOn_pushAttributes {p : Bytes} (hp : semicolon ∉ p) {entries : Attribute → J.Value}
    (h : ∀ a, semicolon ∉ J.text (entries a)) :
    ([semicolon].intercalate (pushAttributes [p] (.object entries))).splitOn semicolon =
      p :: asked entries := by
  rw [pushAttributes_object]
  refine List.splitOn_intercalate _ (fun l hl => ?_) (List.cons_ne_nil _ _)
  rcases List.mem_cons.1 hl with rfl | hl
  · exact hp
  · obtain ⟨a, -, rfl⟩ := List.mem_map.1 hl
    exact Attribute.semicolon_notMem_render (h a)

/-- Whatever the options are, the header is the pair. -/
theorem cookieSerialize_eq (name val : Bytes) (opt : Opt J) :
    cookieSerialize name val opt = Web.cookieSerialize name val := by
  rw [cookieSerialize, Opt.bitOr, pushAttributes_number, List.intercalate_singleton,
    Web.cookieSerialize]

/-- A string is the first part of itself only if it has no separator, and then there is no other. -/
theorem splitOn_eq_cons_iff {s : Bytes} {l : List Bytes} :
    s.splitOn semicolon = s :: l ↔ semicolon ∉ s ∧ l = [] := by
  refine ⟨fun h => ?_, fun ⟨hs, hl⟩ => by rw [List.splitOn_eq_singleton hs, hl]⟩
  have hs : [semicolon].intercalate (s :: l) = s := by rw [← h, List.intercalate_splitOn]
  obtain rfl : l = [] := by
    cases l with
    | nil => rfl
    | cons t l =>
      have hlen := congrArg List.length hs
      rw [List.intercalate_cons_cons, List.length_append, List.length_append,
        List.length_singleton] at hlen
      omega
  refine ⟨fun hmem => ?_, rfl⟩
  obtain ⟨a, b, hab⟩ := List.append_of_mem hmem
  have hlen := congrArg List.length h
  rw [hab, List.splitOn_append_cons_self, List.length_append, List.length_singleton] at hlen
  have ha := List.length_pos_of_ne_nil (List.splitOn_ne_nil semicolon a)
  have hb := List.length_pos_of_ne_nil (List.splitOn_ne_nil semicolon b)
  omega

/-- **When a header says what was asked.** Its parts are the pair and the attributes for which the options
have a truthy entry exactly if the name has no semicolon and there is no such entry. -/
theorem splitOn_cookieSerialize_iff (name : Bytes) {val : Bytes} (hval : semicolon ∉ val)
    (entries : Attribute → J.Value) :
    (cookieSerialize name val (.object entries)).splitOn semicolon =
        (name ++ ascii "=" ++ val) :: asked entries ↔
      semicolon ∉ name ∧ ∀ a, J.truthy (entries a) = false := by
  rw [cookieSerialize_eq, Web.cookieSerialize, splitOn_eq_cons_iff, asked_eq_nil_iff]
  have hpair : semicolon ∉ name ++ ascii "=" ++ val ↔ semicolon ∉ name := by
    rw [List.mem_append, List.mem_append, not_or, not_or]
    exact ⟨fun h => h.1.1, fun h => ⟨⟨h, by decide⟩, hval⟩⟩
  rw [hpair]

/-! ## The session cookies -/

/-- Strings and numbers. -/
inductive Primitive
  | undefined
  | number (n : ℕ)
  | string (s : Bytes)

/-- Zero and the empty string are falsy. -/
def primitives : Values where
  Value := Primitive
  undefined := .undefined
  truthy
    | .undefined => false
    | .number n => n ≠ 0
    | .string s => s ≠ []
  text
    | .undefined => ascii "undefined"
    | .number n => itoa n
    | .string s => s
  truthy_undefined := rfl

/-- A week, in milliseconds. -/
def BROWERAGE : ℕ := 7 * 24 * 60 * 60 * 1000

/-- `{ 'maxAge': maxAge, 'path': '/' }`: with `BROWERAGE` for the session cookie of a login, a
registration and an update, with zero for that of a logout. -/
def sessionOptions (maxAge : ℕ) : Attribute → primitives.Value
  | .maxAge => Primitive.number maxAge
  | .path => Primitive.string (ascii "/")
  | _ => Primitive.undefined

theorem semicolon_notMem_text (maxAge : ℕ) (a : Attribute) :
    semicolon ∉ primitives.text (sessionOptions maxAge a) := by
  cases a with
  | maxAge =>
    intro h
    have hdigit := mem_itoa h
    have hsemicolon : semicolon.toNat = 59 := rfl
    omega
  | path => exact (by decide : semicolon ∉ ascii "/")
  | domain => exact (by decide : semicolon ∉ ascii "undefined")
  | httpOnly => exact (by decide : semicolon ∉ ascii "undefined")
  | secure => exact (by decide : semicolon ∉ ascii "undefined")

/-- Nobody's session cookie has a lifetime or a path, though all callers ask for a path, and would get it from
the tests alone. -/
theorem splitOn_sessionCookie {id : Bytes} (hid : semicolon ∉ id) (maxAge : ℕ) :
    (cookieSerialize sessionKey id (.object (sessionOptions maxAge))).splitOn semicolon =
        [sessionKey ++ ascii "=" ++ id] ∧
      ascii "Path=/" ∈ ([semicolon].intercalate (pushAttributes [sessionKey ++ ascii "=" ++ id]
        (.object (sessionOptions maxAge)))).splitOn semicolon := by
  have hpair : semicolon ∉ sessionKey ++ ascii "=" ++ id := by
    intro hmem
    rcases List.mem_append.1 hmem with hmem | hmem
    · exact absurd hmem (by decide)
    · exact hid hmem
  constructor
  · rw [cookieSerialize_eq, Web.cookieSerialize, List.splitOn_eq_singleton hpair]
  · rw [splitOn_pushAttributes hpair (semicolon_notMem_text maxAge)]
    exact List.mem_cons_of_mem _
      (List.mem_map.2 ⟨.path, List.mem_filter.2 ⟨Attribute.mem_all _, rfl⟩, rfl⟩)

/-- The session cookie of an update. -/
theorem splitOn_updatedCookie :
    (cookieSerialize sessionKey (ascii "5f9c") (.object (sessionOptions BROWERAGE))).splitOn semicolon =
        [ascii "session_id=5f9c"] ∧
      asked (sessionOptions BROWERAGE) = [ascii "Max-Age=604800000", ascii "Path=/"] ∧
      (cookieSerialize sessionKey (ascii "5f9c") (.object (sessionOptions BROWERAGE))).splitOn semicolon ≠
        (sessionKey ++ ascii "=" ++ ascii "5f9c") :: asked (sessionOptions BROWERAGE) := by
  decide +kernel

theorem splitOn_updatedCookie_iff :
    semicolon ∉ ascii "5f9c" ∧
      ((cookieSerialize sessionKey (ascii "5f9c") (.object (sessionOptions BROWERAGE))).splitOn
            semicolon =
          (sessionKey ++ ascii "=" ++ ascii "5f9c") :: asked (sessionOptions BROWERAGE) ↔
        semicolon ∉ sessionKey ∧
          ∀ a, primitives.truthy (sessionOptions BROWERAGE a) = false) :=
  ⟨by decide, splitOn_cookieSerialize_iff sessionKey (by decide) (sessionOptions BROWERAGE)⟩

end SetCookie

end MutexIM.Web
