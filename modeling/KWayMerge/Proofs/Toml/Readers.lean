import KWayMerge.Toml.Document
import KWayMerge.Toml.Format
import Mathlib.Tactic

/-!
# What readers give

A reader is a sequence of steps, so what it gives is known from what the steps give: a property of
the outcome is shown for the last step of every branch, and the steps before do not matter. In this
way every integer of a document fits into 64 bits with a sign, however deep in a reader the digits
are taken.

**Results.**
* `Gives.bind`, `Gives.orElse`, `gives_manyUntil`: a property is passed on by each way to join
  readers.
* `gives_value`: an integer that is read fits into 64 bits.
* `gives_lines`: so does every integer that stands under a key of a line.
-/

namespace KWayMerge.Toml

section Gives

variable {α β : Type}

/-- What a reader gives has a property, whatever the characters are. -/
def Gives (p : Parser α) (Q : α → Prop) : Prop :=
  ∀ ⦃s a rest⦄, p s = some (a, rest) → Q a

/-- Two steps give what the second gives behind the first. -/
theorem bind_eq_some {p : Parser α} {f : α → Parser β} {s rest : List Char} {b : β} :
    (p >>= f) s = some (b, rest) ↔ ∃ a mid, p s = some (a, mid) ∧ f a mid = some (b, rest) := by
  have hbind : (p >>= f) s = (p s).bind fun step => f step.1 step.2 := rfl
  rw [hbind, Option.bind_eq_some_iff]
  constructor
  · rintro ⟨⟨a, mid⟩, hp, hf⟩
    exact ⟨a, mid, hp, hf⟩
  · rintro ⟨a, mid, hp, hf⟩
    exact ⟨(a, mid), hp, hf⟩

theorem bind_of_eq_some {p : Parser α} {s mid : List Char} {a : α} (h : p s = some (a, mid))
    (f : α → Parser β) : (p >>= f) s = f a mid := by
  have hbind : (p >>= f) s = (p s).bind fun step => f step.1 step.2 := rfl
  rw [hbind, h, Option.bind_some]

theorem bind_of_eq_none {p : Parser α} {s : List Char} (h : p s = none) (f : α → Parser β) :
    (p >>= f) s = none := by
  have hbind : (p >>= f) s = (p s).bind fun step => f step.1 step.2 := rfl
  rw [hbind, h, Option.bind_none]

theorem orElse_of_eq_none {p q : Parser α} {s : List Char} (h : p s = none) :
    (p <|> q) s = q s := by
  have horElse : (p <|> q) s = (p s).orElse fun _ => q s := rfl
  rw [horElse, h, Option.orElse_none]

theorem orElse_of_eq_some {p q : Parser α} {s : List Char} {step : α × List Char}
    (h : p s = some step) : (p <|> q) s = some step := by
  have horElse : (p <|> q) s = (p s).orElse fun _ => q s := rfl
  rw [horElse, h, Option.orElse_some]

theorem gives_pure {Q : α → Prop} {a : α} (h : Q a) : Gives (pure a) Q := by
  intro s b rest hb
  have hpure : some (a, s) = some (b, rest) := hb
  cases hpure
  exact h

theorem gives_failure {Q : α → Prop} : Gives failure Q := by
  intro s a rest h
  have hfailure : none = some (a, rest) := h
  cases hfailure

theorem Gives.bind {p : Parser α} {f : α → Parser β} {P : α → Prop} {Q : β → Prop}
    (hp : Gives p P) (hf : ∀ a, P a → Gives (f a) Q) : Gives (p >>= f) Q := by
  intro s b rest h
  obtain ⟨a, mid, ha, hb⟩ := bind_eq_some.1 h
  exact hf a (hp ha) hb

/-- Steps before the last do not matter. -/
theorem gives_bind {p : Parser α} {f : α → Parser β} {Q : β → Prop}
    (hf : ∀ a, Gives (f a) Q) : Gives (p >>= f) Q := by
  intro s b rest h
  obtain ⟨a, mid, -, hb⟩ := bind_eq_some.1 h
  exact hf a hb

theorem Gives.orElse {p q : Parser α} {Q : α → Prop} (hp : Gives p Q) (hq : Gives q Q) :
    Gives (p <|> q) Q := by
  intro s a rest h
  cases hs : p s with
  | none =>
      rw [orElse_of_eq_none hs] at h
      exact hq h
  | some step =>
      rw [orElse_of_eq_some hs] at h
      cases h
      exact hp hs

/-- What each round gives, all rounds give. -/
theorem gives_manyUntil {step : Parser (Option α)} {Q : α → Prop}
    (hstep : Gives step fun o => ∀ a, o = some a → Q a) :
    Gives (manyUntil step) fun as => ∀ a ∈ as, Q a := by
  intro s
  fun_induction manyUntil step s with
  | case1 s hs =>
      intro as rest h
      cases h
  | case2 s last hs =>
      intro as rest h
      cases h
      simp
  | case3 s a mid hs hlt hmid ih =>
      intro as rest h
      cases h
  | case4 s a mid hs hlt as last hmid ih =>
      intro bs rest h
      cases h
      rw [List.forall_mem_cons]
      exact ⟨hstep hs a rfl, ih hmid⟩
  | case5 s a mid hs hlt =>
      intro as rest h
      cases h

end Gives

/-! ## Integers of 64 bits -/

theorem gives_integerInRange (n : Int) : Gives (integerInRange n) Value.Fits := by
  rw [integerInRange]
  split
  · next hrange => exact gives_pure hrange
  · exact gives_failure

theorem gives_floatOf (negative : Bool) (whole fraction : List Char) (e : Int) :
    Gives (floatOf negative whole fraction e) Value.Fits := by
  rw [floatOf]
  split
  · exact gives_failure
  · exact gives_pure trivial

theorem gives_specialFloat (negative : Bool) : Gives (specialFloat negative) Value.Fits := by
  rw [specialFloat]
  refine Gives.orElse ?_ ?_
  all_goals exact gives_bind fun _ => gives_pure trivial

theorem gives_decimalNumber (negative : Bool) : Gives (decimalNumber negative) Value.Fits := by
  rw [decimalNumber]
  refine gives_bind fun whole => gives_bind fun next => ?_
  split
  · refine gives_bind fun _ => gives_bind fun fraction => gives_bind fun next => ?_
    split
    · exact gives_bind fun e => gives_floatOf negative whole fraction e
    · exact gives_bind fun e => gives_floatOf negative whole fraction e
    · exact gives_floatOf negative whole fraction 0
  · exact gives_bind fun e => gives_floatOf negative whole [] e
  · exact gives_bind fun e => gives_floatOf negative whole [] e
  · exact gives_integerInRange _

theorem gives_basedInteger (base : Nat) : Gives (basedInteger base) Value.Fits :=
  gives_bind fun _ => gives_integerInRange _

theorem gives_number : Gives number Value.Fits := by
  intro s v rest h
  unfold number at h
  split at h
  · exact gives_basedInteger 16 h
  · exact gives_basedInteger 8 h
  · exact gives_basedInteger 2 h
  · refine gives_bind (fun negative => ?_) h
    exact (gives_specialFloat negative).orElse (gives_decimalNumber negative)

theorem gives_datetime : Gives datetime Value.Fits :=
  gives_bind fun _ => gives_bind fun _ => gives_bind fun _ => gives_pure trivial

theorem gives_braceTable (entries : List ((List String × String) × Value)) :
    Gives (braceTable entries) Value.Fits := by
  rw [braceTable]
  split
  · exact gives_failure
  · exact gives_pure trivial

/-- Nested values do not matter: an integer stands for itself. -/
theorem gives_valueAround (nested : Option (Parser Value)) :
    Gives (valueAround nested) Value.Fits := by
  rw [valueAround]
  refine gives_bind fun next => ?_
  split
  · exact gives_bind fun _ => gives_pure trivial
  · exact gives_bind fun _ => gives_pure trivial
  · exact gives_bind fun _ => gives_bind fun _ => gives_bind fun _ => gives_pure trivial
  · exact gives_bind fun _ => gives_bind fun _ => gives_bind fun entries =>
      gives_braceTable entries
  · exact gives_bind fun _ => gives_pure trivial
  · exact gives_bind fun _ => gives_pure trivial
  · exact gives_datetime.orElse gives_number

/-- **An integer that is read fits into 64 bits with a sign.** -/
theorem gives_value : Gives value Value.Fits := by
  rw [value, nestingLimit, valueWithin.eq_def]
  exact gives_valueAround _

/-! ## Lines -/

/-- A line on which an integer under a key fits into 64 bits. -/
def Line.Fits : Line → Prop
  | .entry _ _ v => v.Fits
  | _ => True

theorem gives_headerLine : Gives headerLine Line.Fits := by
  rw [headerLine]
  refine gives_bind fun next => ?_
  split
  · exact gives_bind fun _ => gives_bind fun _ => gives_bind fun _ => gives_bind fun _ =>
      gives_pure trivial
  · exact gives_bind fun _ => gives_bind fun _ => gives_bind fun _ => gives_pure trivial

theorem gives_keyValue : Gives (keyValue value) fun entry => entry.2.Fits :=
  gives_bind fun _ => gives_bind fun _ => gives_bind fun _ => gives_value.bind fun _ hv =>
    gives_pure hv

theorem gives_line? : Gives line? fun o => ∀ line, o = some line → line.Fits := by
  rw [line?]
  refine gives_bind fun _ => gives_bind fun next => ?_
  split
  · exact gives_pure (by simp)
  · exact gives_bind fun _ => gives_bind fun _ => gives_pure (by simp [Line.Fits])
  · exact gives_bind fun _ => gives_pure (by simp [Line.Fits])
  · exact gives_bind fun _ => gives_pure (by simp [Line.Fits])
  · exact gives_bind fun _ => gives_headerLine.bind fun line hline =>
      gives_pure (by simpa using hline)
  · refine gives_keyValue.bind fun entry hentry => gives_bind fun _ => gives_pure ?_
    simpa [Line.Fits] using hentry

/-- **Every integer under a key of a line fits into 64 bits with a sign.** -/
theorem gives_lines : Gives lines fun read => ∀ line ∈ read, line.Fits :=
  gives_manyUntil gives_line?

end KWayMerge.Toml
