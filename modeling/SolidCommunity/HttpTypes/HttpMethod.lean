import SolidCommunity.Foundations.Uppercase

/-!
# Method Names

A method is parsed by its uppercase text.  Two names contain capitals that are also the uppercase
text of letters beyond ASCII, so these names are accepted in six spellings that are not theirs in any
ASCII case; everything else is parsed exactly.
-/

namespace SolidCommunity.HttpTypes

open Foundations.Text Foundations.Uppercase

inductive HttpMethod where
  | get
  | head
  | post
  | put
  | patch
  | delete
  | options
deriving DecidableEq, Repr

namespace HttpMethod

/-- The name that `Display` prints. -/
def display : HttpMethod → Str
  | get => "GET".toList
  | head => "HEAD".toList
  | post => "POST".toList
  | put => "PUT".toList
  | patch => "PATCH".toList
  | delete => "DELETE".toList
  | options => "OPTIONS".toList

def tryFrom (unicode : UnicodeData) (s : Str) : Except Str HttpMethod :=
  let upper := unicode.toUppercase s
  if upper = "GET".toList then .ok get
  else if upper = "HEAD".toList then .ok head
  else if upper = "POST".toList then .ok post
  else if upper = "PUT".toList then .ok put
  else if upper = "PATCH".toList then .ok patch
  else if upper = "DELETE".toList then .ok delete
  else if upper = "OPTIONS".toList then .ok options
  else .error ("Unknown HTTP method: ".toList ++ upper)

/-- The lower-case spellings of a name with letters beyond ASCII. -/
def otherSpellings : HttpMethod → List Str
  | post => ["poſt".toList, "poﬅ".toList, "poﬆ".toList]
  | options => ["optionſ".toList, "optıons".toList, "optıonſ".toList]
  | _ => []

/-- A string is parsed to the method whose name it is in some ASCII case, and rejected if there is
none. -/
structure ParsedExactly (unicode : UnicodeData) (s : Str) : Prop where
  accepted : ∀ method : HttpMethod,
    tryFrom unicode s = .ok method ↔ eqIgnoreAsciiCase s method.display = true
  rejected : (∃ message, tryFrom unicode s = .error message) ↔
    ∀ method : HttpMethod, eqIgnoreAsciiCase s method.display = false

section Parsing

variable {unicode : UnicodeData} {s : Str} {method : HttpMethod}

theorem tryFrom_of_toUppercase_eq (h : unicode.toUppercase s = method.display) :
    tryFrom unicode s = .ok method := by
  simp only [tryFrom, h]
  cases method <;> rfl

theorem tryFrom_of_toUppercase_ne (h : ∀ method, unicode.toUppercase s ≠ display method) :
    tryFrom unicode s = .error ("Unknown HTTP method: ".toList ++ unicode.toUppercase s) :=
  calc tryFrom unicode s
      = _ := if_neg (h get)
    _ = _ := if_neg (h head)
    _ = _ := if_neg (h post)
    _ = _ := if_neg (h put)
    _ = _ := if_neg (h patch)
    _ = _ := if_neg (h delete)
    _ = _ := if_neg (h options)

/-- A string is parsed to the method whose name is its uppercase text. -/
theorem tryFrom_eq_ok_iff :
    tryFrom unicode s = .ok method ↔ unicode.toUppercase s = method.display := by
  constructor
  · intro hparsed
    by_contra hne
    by_cases hname : ∃ other, unicode.toUppercase s = display other
    · obtain ⟨other, hother⟩ := hname
      have hsame : other = method :=
        Except.ok.inj ((tryFrom_of_toUppercase_eq hother).symm.trans hparsed)
      exact hne (hsame ▸ hother)
    · have herror := tryFrom_of_toUppercase_ne (not_exists.mp hname)
      exact absurd (herror.symm.trans hparsed) (by simp)
  · exact tryFrom_of_toUppercase_eq

/-- The spellings of a name: its own, and those with letters beyond ASCII. -/
theorem lowercaseSpellings_display (method : HttpMethod) :
    lowercaseSpellings method.display = toAsciiLowercase method.display :: otherSpellings method := by
  cases method <;> decide

theorem isUpper_of_mem_display (method : HttpMethod) : ∀ d ∈ method.display, d.isUpper = true := by
  have hall : method.display.all Char.isUpper = true := by cases method <;> decide
  exact List.all_eq_true.mp hall

theorem toAsciiLowercase_display_notMem (method : HttpMethod) :
    toAsciiLowercase method.display ∉ otherSpellings method := by
  cases method <;> decide

/-- The strings that are accepted as a method. -/
theorem tryFrom_eq_ok_iff_mem :
    tryFrom unicode s = .ok method ↔
      eqIgnoreAsciiCase s method.display = true ∨ toAsciiLowercase s ∈ otherSpellings method := by
  rw [tryFrom_eq_ok_iff, toUppercase_eq_iff unicode (isUpper_of_mem_display method),
    lowercaseSpellings_display, List.mem_cons, eqIgnoreAsciiCase, decide_eq_true_iff]

theorem exists_error_iff :
    (∃ message, tryFrom unicode s = .error message) ↔ ∀ method, tryFrom unicode s ≠ .ok method := by
  cases tryFrom unicode s with
  | error message => simp
  | ok method => simp

/-- A string is parsed exactly unless it is one of the six other spellings. -/
theorem parsedExactly_iff (unicode : UnicodeData) (s : Str) :
    ParsedExactly unicode s ↔ ∀ method, toAsciiLowercase s ∉ otherSpellings method := by
  constructor
  · intro h method hother
    have hname := (h.accepted method).mp (tryFrom_eq_ok_iff_mem.mpr (.inr hother))
    have hlower : toAsciiLowercase s = toAsciiLowercase method.display := of_decide_eq_true hname
    exact toAsciiLowercase_display_notMem method (hlower ▸ hother)
  · intro h
    have haccepted (method : HttpMethod) :
        tryFrom unicode s = .ok method ↔ eqIgnoreAsciiCase s method.display = true :=
      tryFrom_eq_ok_iff_mem.trans (or_iff_left (h method))
    refine ⟨haccepted, exists_error_iff.trans (forall_congr' fun method ↦ ?_)⟩
    rw [ne_eq, haccepted, Bool.not_eq_true]

/-- The long s is taken for the letter s. -/
theorem not_parsedExactly_long_s :
    tryFrom .caseless "POſT".toList = .ok post ∧ ¬ ParsedExactly .caseless "POſT".toList := by
  refine ⟨rfl, fun h ↦ ?_⟩
  exact absurd ((h.accepted post).mp rfl) (by decide)

end Parsing

end HttpMethod

end SolidCommunity.HttpTypes
