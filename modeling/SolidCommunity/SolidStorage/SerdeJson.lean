import Mathlib.Data.List.AList
import SolidCommunity.Foundations.FiniteMap
import SolidCommunity.Foundations.Text

/-!
# Serialisation to JSON

The storages keep their values as JSON and take the serialisation library as a parameter.  A map is
printed in the iteration order of its hash table, so the printer takes the map together with an
order.  The last section prints objects of strings the way the library does; the printed objects
form a prefix code, which makes the printer an instance of every law assumed here.
-/

namespace SolidCommunity.SolidStorage

open Foundations.FiniteMap Foundations.Text

/-- The conversions between values and JSON, and between JSON objects and their text. -/
structure SerdeJson (V Value : Type*) where
  toValue : V → Option Value
  fromValue : Value → Option V
  toStringPretty : AList (fun _ : Str ↦ Value) → Option Str
  fromStr : Str → Option (HashMap Str Value)

namespace SerdeJson

variable {V Value : Type*}

/-- A printed object is read back, and is rejected when its end is missing. -/
structure ReadsBack (serde : SerdeJson V Value) : Prop where
  whole : ∀ order text, serde.toStringPretty order = some text →
    serde.fromStr text = some order.toFinmap
  truncated : ∀ order text cut, serde.toStringPretty order = some text → cut <+: text →
    cut ≠ text → serde.fromStr cut = none

/-- Every value and every map can be serialised and is read back. -/
structure RoundTrips (serde : SerdeJson V Value) : Prop where
  value : ∀ v, ∃ raw, serde.toValue v = some raw ∧ serde.fromValue raw = some v
  map : ∀ order, ∃ text, serde.toStringPretty order = some text ∧
    serde.fromStr text = some order.toFinmap

/-! ## Objects of strings -/

/-- Escape the delimiters of a JSON string. -/
def escapeChar (c : Char) : Str := if c = '"' ∨ c = '\\' then ['\\', c] else [c]

def quote (s : Str) : Str := '"' :: s.flatMap escapeChar ++ ['"']

def member (entry : Sigma fun _ : Str ↦ Str) : Str := quote entry.1 ++ ": ".toList ++ quote entry.2

/-- The members after the first one, and the end of the object. -/
def closeObject : List (Sigma fun _ : Str ↦ Str) → Str
  | [] => "\n\x7d".toList
  | entry :: entries => ",\n  ".toList ++ member entry ++ closeObject entries

def printObject : List (Sigma fun _ : Str ↦ Str) → Str
  | [] => "\x7b\x7d".toList
  | entry :: entries => "\x7b\n  ".toList ++ member entry ++ closeObject entries

theorem closeObject_cons (entry : Sigma fun _ : Str ↦ Str)
    (entries : List (Sigma fun _ : Str ↦ Str)) :
    closeObject (entry :: entries) = ",\n  ".toList ++ member entry ++ closeObject entries := rfl

theorem printObject_cons (entry : Sigma fun _ : Str ↦ Str)
    (entries : List (Sigma fun _ : Str ↦ Str)) :
    printObject (entry :: entries) = "\x7b\n  ".toList ++ member entry ++ closeObject entries := rfl

/-- An escaped character ends where its escape does. -/
theorem escapeChar_append_inj {c d : Char} {u v : Str}
    (h : escapeChar c ++ u = escapeChar d ++ v) : c = d ∧ u = v := by
  unfold escapeChar at h
  split at h <;> split at h
  · simpa using h
  · next _ hd => exact absurd (.inr (List.cons.inj h).1.symm) hd
  · next hc _ => exact absurd (.inr (List.cons.inj h).1) hc
  · simpa using h

/-- No escaped character begins like the closing quote. -/
theorem escapeChar_append_ne (c : Char) (u v : Str) : escapeChar c ++ u ≠ '"' :: v := by
  unfold escapeChar
  split
  · simp
  · next hc => exact fun h ↦ hc (.inl (List.cons.inj h).1)

theorem flatMap_escapeChar_inj {s t u v : Str}
    (h : s.flatMap escapeChar ++ '"' :: u = t.flatMap escapeChar ++ '"' :: v) : s = t ∧ u = v := by
  induction s generalizing t with
  | nil =>
    cases t with
    | nil => simpa using h
    | cons d t =>
      rw [List.flatMap_cons, List.append_assoc] at h
      exact absurd h.symm (escapeChar_append_ne d _ u)
  | cons c s ih =>
    rw [List.flatMap_cons, List.append_assoc] at h
    cases t with
    | nil => exact absurd h (escapeChar_append_ne c _ v)
    | cons d t =>
      rw [List.flatMap_cons, List.append_assoc] at h
      obtain ⟨rfl, hrest⟩ := escapeChar_append_inj h
      obtain ⟨rfl, rfl⟩ := ih hrest
      exact ⟨rfl, rfl⟩

/-- A quoted string ends where its closing quote stands. -/
theorem quote_append_inj {s t u v : Str} (h : quote s ++ u = quote t ++ v) : s = t ∧ u = v := by
  apply flatMap_escapeChar_inj
  simpa [quote] using h

theorem member_append_inj {first second : Sigma fun _ : Str ↦ Str} {u v : Str}
    (h : member first ++ u = member second ++ v) : first = second ∧ u = v := by
  obtain ⟨key, value⟩ := first
  obtain ⟨key', value'⟩ := second
  simp only [member, List.append_assoc] at h
  obtain ⟨rfl, hvalue⟩ := quote_append_inj h
  obtain ⟨rfl, rfl⟩ := quote_append_inj (List.append_cancel_left hvalue)
  exact ⟨rfl, rfl⟩

theorem closeObject_append_inj {first second : List (Sigma fun _ : Str ↦ Str)} {u v : Str}
    (h : closeObject first ++ u = closeObject second ++ v) : first = second ∧ u = v := by
  induction first generalizing second with
  | nil =>
    cases second with
    | nil => exact ⟨rfl, List.append_cancel_left h⟩
    | cons entry second => exact absurd (List.cons.inj h).1 (by decide)
  | cons entry first ih =>
    cases second with
    | nil => exact absurd (List.cons.inj h).1 (by decide)
    | cons other second =>
      simp only [closeObject_cons, List.append_assoc] at h
      obtain ⟨rfl, hrest⟩ := member_append_inj (List.append_cancel_left h)
      obtain ⟨rfl, rfl⟩ := ih hrest
      exact ⟨rfl, rfl⟩

/-- The printed objects form a prefix code. -/
theorem printObject_append_inj {first second : List (Sigma fun _ : Str ↦ Str)} {u v : Str}
    (h : printObject first ++ u = printObject second ++ v) : first = second ∧ u = v := by
  cases first with
  | nil =>
    cases second with
    | nil => exact ⟨rfl, List.append_cancel_left h⟩
    | cons entry second => exact absurd (List.cons.inj (List.cons.inj h).2).1 (by decide)
  | cons entry first =>
    cases second with
    | nil => exact absurd (List.cons.inj (List.cons.inj h).2).1 (by decide)
    | cons other second =>
      simp only [printObject_cons, List.append_assoc] at h
      obtain ⟨rfl, hrest⟩ := member_append_inj (List.append_cancel_left h)
      obtain ⟨rfl, rfl⟩ := closeObject_append_inj hrest
      exact ⟨rfl, rfl⟩

open Classical in
/-- The library at objects of strings, with the reader that inverts the printer. -/
noncomputable def strings : SerdeJson Str Str where
  toValue := some
  fromValue := some
  toStringPretty order := some (printObject order.entries)
  fromStr text :=
    if h : ∃ order : AList (fun _ : Str ↦ Str), printObject order.entries = text then
      some h.choose.toFinmap
    else none

theorem strings_fromStr_print (order : AList (fun _ : Str ↦ Str)) :
    strings.fromStr (printObject order.entries) = some order.toFinmap := by
  have h : ∃ other : AList (fun _ : Str ↦ Str),
      printObject other.entries = printObject order.entries := ⟨order, rfl⟩
  have hentries : h.choose.entries = order.entries :=
    (printObject_append_inj (congrArg (· ++ []) h.choose_spec)).1
  have hchoose : h.choose = order := AList.ext hentries
  simp only [strings, dif_pos h, hchoose]

theorem strings_readsBack : strings.ReadsBack where
  whole order text htext := by
    obtain rfl := Option.some_inj.mp htext
    exact strings_fromStr_print order
  truncated order text cut htext hcut hne := by
    obtain rfl := Option.some_inj.mp htext
    obtain ⟨rest, hrest⟩ := hcut
    apply dif_neg
    rintro ⟨other, rfl⟩
    have hparts := printObject_append_inj (hrest.trans (List.append_nil _).symm)
    exact hne (congrArg printObject hparts.1)

theorem strings_roundTrips : strings.RoundTrips where
  value v := ⟨v, rfl, rfl⟩
  map order := ⟨_, rfl, strings_fromStr_print order⟩

end SerdeJson

end SolidCommunity.SolidStorage
