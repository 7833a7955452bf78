import KWayMerge.Proofs.Toml.Lines
import KWayMerge.Settings.Reading
import Mathlib

/-!
# Which settings files are read

Each entry of a settings file replaces one default, or is refused; what it does depends on the
entry alone and not on the settings so far. So a file is refused for the first entry that is wrong.
If none is, each of the settings is what its entry says, or the default where there is no such
entry. As the keys of a document are distinct, the order of the entries makes no difference.

**Results.**
* `override_eq_ok_iff`, `override_eq_error_iff`: what one entry does.
* `foldlM_eq_error_iff`: the first wrong entry decides the refusal.
* `follows_of_foldlM`: settings that are read keep to the entries and to the defaults.
* `ofText_reads_entries`: which documents are refused, and what is read from the others.
-/

namespace KWayMerge

open Toml

theorem FanIn.ofCount_eq_ok_iff {n : Nat} {f : FanIn} : ofCount n = .ok f ↔ n = f.count := by
  constructor
  · intro h
    rw [ofCount.eq_def] at h
    split at h
    all_goals cases h
    all_goals rfl
  · rintro rfl
    exact ofCount_count f

theorem FanIn.ofCount_eq_error_iff {n : Nat} {fault : Fault} :
    ofCount n = .error fault ↔ (n ≠ 2 ∧ n ≠ 3 ∧ n ≠ 4) ∧ fault = .runCount n slotCount := by
  rw [ofCount.eq_def]
  split
  · simp
  · simp
  · simp
  · next htwo hthree hfour =>
      rw [Except.error.injEq, eq_comm]
      exact (and_iff_right ⟨htwo, hthree, hfour⟩).symm

theorem map_eq_ok_iff {ε α β : Type} {x : Except ε α} {f : α → β} {b : β} :
    x.map f = .ok b ↔ ∃ a, x = .ok a ∧ b = f a := by
  cases x <;> simp [Except.map, eq_comm]

theorem map_eq_error_iff {ε α β : Type} {x : Except ε α} {f : α → β} {e : ε} :
    x.map f = .error e ↔ x = .error e := by
  cases x <;> simp [Except.map]

/-! ## Values of entries -/

theorem readCount_eq_ok_iff {v : Value} {n : Nat} : readCount v = .ok n ↔ v = .integer n := by
  rw [readCount.eq_def]
  split
  · simp
  · next hnot =>
      rw [Value.integer.injEq]
      exact ⟨nofun, fun h => (hnot n h).elim⟩
  · next hnot => exact ⟨nofun, fun h => (hnot _ h).elim⟩

theorem readCount_eq_error_iff {v : Value} {fault : ContentFault} :
    readCount v = .error fault ↔
      (∃ n, v = .integer n ∧ n < 0 ∧ fault = .negative n) ∨
        (∀ n, v ≠ .integer n) ∧ fault = .wrongType (describeValue v) := by
  cases v with
  | integer n =>
      cases n with
      | ofNat n => simp [readCount]
      | negSucc n => simp [readCount, eq_comm, Int.negSucc_lt_zero]
  | _ => simp [readCount, eq_comm]

theorem readFanIn_of_count {v : Value} {n : Nat} (h : readCount v = .ok n) :
    readFanIn v = (FanIn.ofCount n).mapError .badFanIn := by
  rw [readFanIn, h]
  dsimp only
  cases FanIn.ofCount n <;> rfl

theorem readFanIn_of_error {v : Value} {fault : ContentFault} (h : readCount v = .error fault) :
    readFanIn v = .error fault := by
  rw [readFanIn, h]

theorem readFanIn_eq_ok_iff {v : Value} {f : FanIn} :
    readFanIn v = .ok f ↔ v = .integer f.count := by
  rw [← readCount_eq_ok_iff]
  cases hcount : readCount v with
  | error fault => simp [readFanIn_of_error hcount]
  | ok n =>
      rw [readFanIn_of_count hcount, Except.ok.injEq, ← FanIn.ofCount_eq_ok_iff]
      cases FanIn.ofCount n <;> simp [Except.mapError]

theorem readFanIn_eq_error_iff {v : Value} {fault : ContentFault} :
    readFanIn v = .error fault ↔
      readCount v = .error fault ∨
        ∃ n : Nat, v = .integer n ∧ (n ≠ 2 ∧ n ≠ 3 ∧ n ≠ 4) ∧
          fault = .badFanIn (.runCount n slotCount) := by
  cases hcount : readCount v with
  | error cause =>
      have hnone (n : Nat) : v ≠ .integer n := by
        rw [Ne, ← readCount_eq_ok_iff, hcount]
        exact nofun
      simp [readFanIn_of_error hcount, hnone]
  | ok n =>
      obtain rfl := readCount_eq_ok_iff.1 hcount
      rw [readFanIn_of_count hcount]
      constructor
      · intro h
        cases hfanIn : FanIn.ofCount n with
        | error cause =>
            rw [hfanIn] at h
            cases h
            obtain ⟨hn, rfl⟩ := FanIn.ofCount_eq_error_iff.1 hfanIn
            exact .inr ⟨n, rfl, hn, rfl⟩
        | ok f =>
            rw [hfanIn] at h
            cases h
      · rintro (h | ⟨m, hm, hbad, rfl⟩)
        · cases h
        · obtain rfl := Int.natCast_inj.1 (Value.integer.inj hm)
          rw [FanIn.ofCount_eq_error_iff.2 ⟨hbad, rfl⟩]
          rfl

theorem readDirectionName_eq_ok_iff {name : String} {d : Direction} :
    readDirectionName name = .ok d ↔ name = d.name := by
  constructor
  · intro h
    rw [readDirectionName, Direction.ofName?.eq_def] at h
    split at h
    · cases h
    · next hname =>
        split at hname
        all_goals cases hname
        all_goals cases h
        all_goals rfl
  · rintro rfl
    rw [readDirectionName, Direction.ofName?_name]

theorem readDirectionName_eq_error_iff {name : String} {fault : ContentFault} :
    readDirectionName name = .error fault ↔
      (name ≠ "ascending" ∧ name ≠ "descending") ∧ fault = .unknownVariant name := by
  rw [readDirectionName, Direction.ofName?.eq_def]
  split
  · next hname =>
      split at hname
      · cases hname
      · cases hname
      · next hascending hdescending =>
          rw [Except.error.injEq, eq_comm]
          exact (and_iff_right ⟨hascending, hdescending⟩).symm
  · next hname =>
      split at hname
      · simp
      · simp
      · cases hname

theorem readDirection_eq_ok_iff {v : Value} {d : Direction}
    (htable : ∀ origin entries, v ≠ .table origin entries) :
    readDirection v = .ok d ↔ v = .string d.name := by
  cases v with
  | string name => rw [readDirection, readDirectionName_eq_ok_iff, Value.string.injEq]
  | table origin entries => exact (htable origin entries rfl).elim
  | _ => exact ⟨nofun, nofun⟩

theorem readDirection_eq_error_iff {v : Value} {fault : ContentFault}
    (htable : ∀ origin entries, v ≠ .table origin entries) :
    readDirection v = .error fault ↔
      (∃ name, v = .string name ∧ (name ≠ "ascending" ∧ name ≠ "descending") ∧
        fault = .unknownVariant name) ∨
      (∀ name, v ≠ .string name) ∧ fault = .notNameOrTable := by
  cases v with
  | string name => simp [readDirection, readDirectionName_eq_error_iff]
  | table origin entries => exact (htable origin entries rfl).elim
  | _ => simp [readDirection, eq_comm]

namespace Settings

/-! ## One entry -/

/-- An entry for the direction, the base blocks or the fan-in, with a value as it has to be. -/
inductive Readable : String × Value → Prop
  | order {name : String} (h : name = "ascending" ∨ name = "descending") :
      Readable ("order", .string name)
  | baseBlock {n : Int} (h : 0 ≤ n ∧ n ≤ 2 ^ 63 - 1) : Readable ("base_block", .integer n)
  | maxArity {n : Int} (h : n = 2 ∨ n = 3 ∨ n = 4) : Readable ("max_arity", .integer n)

/-- What is wrong with an entry, unless it is a direction as a table. -/
inductive Wrong : String × Value → ContentFault → Prop
  | key {name : String} {v : Value}
      (h : name ≠ "order" ∧ name ≠ "base_block" ∧ name ≠ "max_arity") :
      Wrong (name, v) (.unknownField name)
  | orderName {name : String} (h : name ≠ "ascending" ∧ name ≠ "descending") :
      Wrong ("order", .string name) (.unknownVariant name)
  | orderType {v : Value} (h : ∀ name, v ≠ .string name) : Wrong ("order", v) .notNameOrTable
  | sign {name : String} (hname : name = "base_block" ∨ name = "max_arity") {n : Int}
      (h : n < 0) : Wrong (name, .integer n) (.negative n)
  | countType {name : String} (hname : name = "base_block" ∨ name = "max_arity") {v : Value}
      (h : ∀ n, v ≠ .integer n) : Wrong (name, v) (.wrongType (describeValue v))
  | fanIn {n : Nat} (h : n ≠ 2 ∧ n ≠ 3 ∧ n ≠ 4) :
      Wrong ("max_arity", .integer n) (.badFanIn (.runCount n slotCount))

/-- An entry that is no direction as a table. -/
def Flat (entry : String × Value) : Prop :=
  ∀ origin entries, entry ≠ ("order", .table origin entries)

theorem Flat.not_table {v : Value} (h : Flat ("order", v)) (origin : Origin)
    (entries : Entries) : v ≠ .table origin entries := by
  rintro rfl
  exact h origin entries rfl

theorem override_order (s : Settings) (v : Value) :
    s.override ("order", v) = (readDirection v).map fun d => { s with direction := d } :=
  rfl

theorem override_baseBlock (s : Settings) (v : Value) :
    s.override ("base_block", v) = (readCount v).map fun n => { s with baseBlock := n } :=
  rfl

theorem override_maxArity (s : Settings) (v : Value) :
    s.override ("max_arity", v) = (readFanIn v).map fun f => { s with fanIn := f } :=
  rfl

/-- **What an entry does** to the settings that there are. -/
theorem override_eq_ok_iff {s s' : Settings} {entry : String × Value} :
    s.override entry = .ok s' ↔
      (∃ v d, entry = ("order", v) ∧ readDirection v = .ok d ∧ s' = { s with direction := d }) ∨
      (∃ n : Nat, entry = ("base_block", .integer n) ∧ s' = { s with baseBlock := n }) ∨
      (∃ f : FanIn, entry = ("max_arity", .integer f.count) ∧ s' = { s with fanIn := f }) := by
  rw [override.eq_def]
  split
  · rw [map_eq_ok_iff]
    simp
  · rw [map_eq_ok_iff]
    simp [readCount_eq_ok_iff]
  · rw [map_eq_ok_iff]
    simp [readFanIn_eq_ok_iff]
  · next name v horder hbase hfanIn =>
      refine ⟨nofun, ?_⟩
      rintro (⟨v, d, h, -⟩ | ⟨n, h, -⟩ | ⟨f, h, -⟩)
      · cases h
        exact (horder rfl).elim
      · cases h
        exact (hbase rfl).elim
      · cases h
        exact (hfanIn rfl).elim

/-- Both counts are refused alike. -/
theorem override_of_count {s : Settings} {name : String} {v : Value} {fault : ContentFault}
    (hname : name = "base_block" ∨ name = "max_arity") (h : readCount v = .error fault) :
    s.override (name, v) = .error fault := by
  obtain rfl | rfl := hname
  · rw [override_baseBlock, map_eq_error_iff]
    exact h
  · rw [override_maxArity, map_eq_error_iff]
    exact readFanIn_of_error h

/-- **Why an entry is refused**: for its key or its value, whatever the settings are. -/
theorem override_eq_error_iff {s : Settings} {entry : String × Value} {fault : ContentFault}
    (hflat : Flat entry) : s.override entry = .error fault ↔ Wrong entry fault := by
  have hcount {v : Value} {name : String} (hname : name = "base_block" ∨ name = "max_arity")
      (h : readCount v = .error fault) : Wrong (name, v) fault := by
    obtain ⟨n, rfl, hn, rfl⟩ | ⟨hv, rfl⟩ := readCount_eq_error_iff.1 h
    · exact .sign hname hn
    · exact .countType hname hv
  constructor
  · intro h
    rw [override.eq_def] at h
    split at h
    · next v =>
        rw [map_eq_error_iff, readDirection_eq_error_iff hflat.not_table] at h
        obtain ⟨name, rfl, hname, rfl⟩ | ⟨hv, rfl⟩ := h
        · exact .orderName hname
        · exact .orderType hv
    · rw [map_eq_error_iff] at h
      exact hcount (.inl rfl) h
    · rw [map_eq_error_iff, readFanIn_eq_error_iff] at h
      obtain h | ⟨n, rfl, hn, rfl⟩ := h
      · exact hcount (.inr rfl) h
      · exact .fanIn hn
    · next horder hbase hfanIn =>
        cases h
        exact .key ⟨horder, hbase, hfanIn⟩
  · intro h
    cases h with
    | key h =>
        rw [override.eq_def]
        split
        · next heq => exact (h.1 (Prod.mk.inj heq).1).elim
        · next heq => exact (h.2.1 (Prod.mk.inj heq).1).elim
        · next heq => exact (h.2.2 (Prod.mk.inj heq).1).elim
        · next heq => rw [(Prod.mk.inj heq).1]
    | orderName h =>
        rw [override_order, map_eq_error_iff, readDirection,
          readDirectionName_eq_error_iff.2 ⟨h, rfl⟩]
    | orderType h =>
        rw [override_order, map_eq_error_iff]
        exact (readDirection_eq_error_iff hflat.not_table).2 (.inr ⟨h, rfl⟩)
    | sign hname h =>
        refine override_of_count hname ?_
        exact readCount_eq_error_iff.2 (.inl ⟨_, rfl, h, rfl⟩)
    | countType hname h =>
        refine override_of_count hname ?_
        exact readCount_eq_error_iff.2 (.inr ⟨h, rfl⟩)
    | fanIn h =>
        rw [override_maxArity, map_eq_error_iff]
        exact readFanIn_eq_error_iff.2 (.inr ⟨_, rfl, h, rfl⟩)

/-- An entry that is not refused is as it has to be. -/
theorem exists_override_iff {s : Settings} {entry : String × Value} (hflat : Flat entry)
    (hfits : entry.2.Fits) : (∃ s', s.override entry = .ok s') ↔ Readable entry := by
  constructor
  · rintro ⟨s', h⟩
    obtain ⟨v, d, rfl, hd, -⟩ | ⟨n, rfl, -⟩ | ⟨f, rfl, -⟩ := override_eq_ok_iff.1 h
    · rw [(readDirection_eq_ok_iff hflat.not_table).1 hd]
      exact .order (by cases d <;> simp [Direction.name])
    · exact .baseBlock ⟨Int.natCast_nonneg n, hfits.2⟩
    · exact .maxArity (by cases f <;> simp [FanIn.count])
  · intro h
    cases h with
    | order hname =>
        obtain rfl | rfl := hname
        · exact ⟨{ s with direction := .ascending }, rfl⟩
        · exact ⟨{ s with direction := .descending }, rfl⟩
    | baseBlock hn =>
        obtain ⟨n, rfl⟩ := Int.eq_ofNat_of_zero_le hn.1
        exact ⟨{ s with baseBlock := n }, rfl⟩
    | maxArity hn =>
        obtain rfl | rfl | rfl := hn
        · exact ⟨{ s with fanIn := .two }, rfl⟩
        · exact ⟨{ s with fanIn := .three }, rfl⟩
        · exact ⟨{ s with fanIn := .four }, rfl⟩

theorem not_readable_iff {entry : String × Value} (hflat : Flat entry) (hfits : entry.2.Fits) :
    ¬ Readable entry ↔ ∃ fault, Wrong entry fault := by
  rw [← exists_override_iff (s := .default) hflat hfits]
  constructor
  · intro h
    cases hentry : Settings.default.override entry with
    | error fault => exact ⟨fault, (override_eq_error_iff hflat).1 hentry⟩
    | ok s => exact (h ⟨s, hentry⟩).elim
  · rintro ⟨fault, hfault⟩ ⟨s, hs⟩
    rw [(override_eq_error_iff hflat).2 hfault] at hs
    cases hs

/-! ## All entries -/

/-- The value under which a setting is written in a file. -/
def valueAt (s : Settings) : String → Option Value
  | "order" => some (.string s.direction.name)
  | "base_block" => some (.integer s.baseBlock)
  | "max_arity" => some (.integer s.fanIn.count)
  | _ => none

/-- Settings are known from the values under which they are written. -/
theorem eq_of_valueAt_eq {s s' : Settings} (h : ∀ key, s.valueAt key = s'.valueAt key) :
    s = s' := by
  obtain ⟨d, n, f⟩ := s
  obtain ⟨d', n', f'⟩ := s'
  have hdirection : d.name = d'.name := Value.string.inj (Option.some.inj (h "order"))
  have hbase : (n : Int) = n' := Value.integer.inj (Option.some.inj (h "base_block"))
  have hfanIn : (f.count : Int) = f'.count := Value.integer.inj (Option.some.inj (h "max_arity"))
  have hd : some d = some d' := by
    rw [← Direction.ofName?_name d, hdirection, Direction.ofName?_name]
  have hf : (Except.ok f : Except Fault FanIn) = .ok f' := by
    rw [← FanIn.ofCount_count f, Int.natCast_inj.1 hfanIn, FanIn.ofCount_count]
  rw [Option.some.inj hd, Int.natCast_inj.1 hbase, Except.ok.inj hf]

/-- Settings that are as the entries say, and as others are where no entry says anything. -/
structure Follows (base : Settings) (entries : Entries) (s : Settings) : Prop where
  given : ∀ key v, (key, v) ∈ entries → s.valueAt key = some v
  kept : ∀ key, key ∉ entries.keys → s.valueAt key = base.valueAt key

/-- An entry sets what is written under its key, and nothing else. -/
theorem valueAt_of_override {s s' : Settings} {entry : String × Value} (hflat : Flat entry)
    (h : s.override entry = .ok s') (key : String) :
    s'.valueAt key = if key = entry.1 then some entry.2 else s.valueAt key := by
  obtain ⟨v, d, rfl, hd, rfl⟩ | ⟨n, rfl, rfl⟩ | ⟨f, rfl, rfl⟩ := override_eq_ok_iff.1 h
  · rw [(readDirection_eq_ok_iff hflat.not_table).1 hd]
    split
    · next hkey =>
        rw [hkey]
        rfl
    · next hkey =>
        unfold valueAt
        split
        · exact (hkey rfl).elim
        all_goals rfl
  · split
    · next hkey =>
        rw [hkey]
        rfl
    · next hkey =>
        unfold valueAt
        split
        · rfl
        · exact (hkey rfl).elim
        all_goals rfl
  · split
    · next hkey =>
        rw [hkey]
        rfl
    · next hkey =>
        unfold valueAt
        split
        · rfl
        · rfl
        · exact (hkey rfl).elim
        · rfl

/-- Entries are read if the first can be, and the others over what it gives. -/
theorem foldlM_cons_eq_ok_iff {s s' : Settings} {entry : String × Value} {entries : Entries} :
    (entry :: entries).foldlM override s = .ok s' ↔
      ∃ next, s.override entry = .ok next ∧ entries.foldlM override next = .ok s' := by
  rw [List.foldlM_cons]
  cases s.override entry with
  | error fault => exact ⟨nofun, by simp⟩
  | ok next =>
      constructor
      · intro h
        exact ⟨next, rfl, h⟩
      · rintro ⟨_, ⟨⟩, h⟩
        exact h

/-- **Settings that are read keep to the entries**, and to the defaults where there are none. -/
theorem follows_of_foldlM {base s : Settings} {entries : Entries} (hnodup : entries.keys.Nodup)
    (hflat : ∀ entry ∈ entries, Flat entry) (h : entries.foldlM override base = .ok s) :
    Follows base entries s := by
  induction entries generalizing base with
  | nil =>
      cases h
      exact ⟨by simp, fun _ _ => rfl⟩
  | cons entry entries ih =>
      rw [List.forall_mem_cons] at hflat
      obtain ⟨next, hentry, h⟩ := foldlM_cons_eq_ok_iff.1 h
      obtain ⟨hnew, hnodup⟩ := List.nodup_cons.1 hnodup
      have hfollows := ih hnodup hflat.2 h
      have hnext := valueAt_of_override hflat.1 hentry
      constructor
      · intro key v hmem
        obtain rfl | hmem := List.mem_cons.1 hmem
        · rw [hfollows.kept key hnew, hnext, if_pos rfl]
        · exact hfollows.given key v hmem
      · intro key hkey
        rw [Entries.keys, List.map_cons, List.mem_cons, not_or] at hkey
        rw [hfollows.kept key hkey.2, hnext, if_neg hkey.1]

/-- Settings that follow the same entries in another order are the same. -/
theorem Follows.eq_of_perm {base s s' : Settings} {entries entries' : Entries}
    (h : Follows base entries s) (h' : Follows base entries' s')
    (hperm : entries.Perm entries') : s = s' := by
  refine eq_of_valueAt_eq ?_
  intro key
  by_cases hkey : key ∈ entries.keys
  · obtain ⟨⟨_, v⟩, hv, rfl⟩ := List.mem_map.1 hkey
    rw [h.given _ v hv, h'.given _ v (hperm.mem_iff.1 hv)]
  · have hkey' : key ∉ entries'.keys := by
      rw [Entries.keys, ← (hperm.map Prod.fst).mem_iff]
      exact hkey
    rw [h.kept key hkey, h'.kept key hkey']

/-- **The first wrong entry decides the refusal.** -/
theorem foldlM_eq_error_iff {base : Settings} {entries : Entries} {fault : ContentFault}
    (hflat : ∀ entry ∈ entries, Flat entry) (hfits : ∀ entry ∈ entries, entry.2.Fits) :
    entries.foldlM override base = .error fault ↔
      ∃ front entry back, entries = front ++ entry :: back ∧ (∀ e ∈ front, Readable e) ∧
        Wrong entry fault := by
  induction entries generalizing base with
  | nil => exact ⟨nofun, by simp⟩
  | cons first entries ih =>
      rw [List.forall_mem_cons] at hflat hfits
      rw [List.foldlM_cons]
      constructor
      · intro h
        cases hfirst : base.override first with
        | error cause =>
            rw [hfirst] at h
            cases h
            exact ⟨[], first, entries, rfl, by simp, (override_eq_error_iff hflat.1).1 hfirst⟩
        | ok next =>
            rw [hfirst] at h
            obtain ⟨front, entry, back, rfl, hfront, hwrong⟩ := (ih hflat.2 hfits.2).1 h
            refine ⟨first :: front, entry, back, rfl, ?_, hwrong⟩
            rw [List.forall_mem_cons]
            exact ⟨(exists_override_iff hflat.1 hfits.1).1 ⟨next, hfirst⟩, hfront⟩
      · rintro ⟨front, entry, back, heq, hfront, hwrong⟩
        cases front with
        | nil =>
            obtain ⟨rfl, rfl⟩ := List.cons.inj heq
            rw [(override_eq_error_iff hflat.1).2 hwrong]
            rfl
        | cons e front =>
            obtain ⟨rfl, rfl⟩ := List.cons.inj heq
            rw [List.forall_mem_cons] at hfront
            obtain ⟨next, hnext⟩ := (exists_override_iff hflat.1 hfits.1).2 hfront.1
            rw [hnext]
            exact (ih hflat.2 hfits.2).2 ⟨front, entry, back, rfl, hfront.2, hwrong⟩

/-- Entries that are all as they have to be are read. -/
theorem exists_foldlM_iff {base : Settings} {entries : Entries}
    (hflat : ∀ entry ∈ entries, Flat entry) (hfits : ∀ entry ∈ entries, entry.2.Fits) :
    (∃ s, entries.foldlM override base = .ok s) ↔ ∀ entry ∈ entries, Readable entry := by
  induction entries generalizing base with
  | nil => exact ⟨by simp, fun _ => ⟨base, rfl⟩⟩
  | cons first entries ih =>
      rw [List.forall_mem_cons] at hflat hfits
      rw [List.foldlM_cons, List.forall_mem_cons,
        ← exists_override_iff (s := base) hflat.1 hfits.1]
      cases hfirst : base.override first with
      | error cause => exact ⟨nofun, nofun⟩
      | ok next =>
          rw [and_iff_right ⟨next, rfl⟩]
          exact ih hflat.2 hfits.2

/-- Whatever can be read can be written. -/
theorem Readable.isPlain {entry : String × Value} (h : Readable entry) :
    isBare entry.1 = true ∧ entry.2.isPlain = true := by
  cases h with
  | order hname =>
      obtain rfl | rfl := hname
      · exact ⟨rfl, rfl⟩
      · exact ⟨rfl, rfl⟩
  | baseBlock hn =>
      have hkey : isBare "base_block" = true := rfl
      exact ⟨hkey, decide_eq_true hn⟩
  | maxArity hn =>
      obtain rfl | rfl | rfl := hn
      · exact ⟨rfl, rfl⟩
      · exact ⟨rfl, rfl⟩
      · exact ⟨rfl, rfl⟩

/-! ## Documents -/

section Documents

variable {f : Format}

theorem validate_eq_ok_iff {s : Settings} : s.validate = .ok () ↔ s.baseBlock ≠ 0 := by
  rw [validate]
  split
  · next hzero => exact ⟨nofun, fun h => (h hzero).elim⟩
  · next hpos => exact ⟨fun _ => hpos, fun _ => rfl⟩

/-- What comes of a document, by what comes of its entries. -/
theorem ofText_cases {text : String} {entries : Entries}
    (hparse : f.read text = some entries) :
    (∃ fault, ofEntries entries = .error fault ∧ ofText f text = .error (.content fault)) ∨
    (∃ s, ofEntries entries = .ok s ∧ s.baseBlock = 0 ∧
      ofText f text = .error (.invalid .emptyBlocks)) ∨
    ∃ s, ofEntries entries = .ok s ∧ s.validate = .ok () ∧ ofText f text = .ok s := by
  rw [ofText, hparse]
  dsimp only
  cases ofEntries entries with
  | error fault => exact .inl ⟨fault, rfl, rfl⟩
  | ok s =>
      dsimp only
      by_cases hzero : s.baseBlock = 0
      · have hinvalid : s.validate = .error .emptyBlocks := by rw [validate, if_pos hzero]
        rw [hinvalid]
        exact .inr (.inl ⟨s, rfl, hzero, rfl⟩)
      · have hvalid := validate_eq_ok_iff.2 hzero
        rw [hvalid]
        exact .inr (.inr ⟨s, rfl, hvalid, rfl⟩)

/-- Settings are read from a document with entries that give them, if they are valid. -/
theorem ofText_eq_ok_iff {text : String} {s : Settings} :
    ofText f text = .ok s ↔
      ∃ entries, f.read text = some entries ∧ ofEntries entries = .ok s ∧ s.validate = .ok () := by
  constructor
  · intro h
    cases hparse : f.read text with
    | none =>
        rw [ofText, hparse] at h
        cases h
    | some entries =>
        obtain ⟨fault, -, htext⟩ | ⟨s', -, -, htext⟩ | ⟨s', hentries, hvalid, htext⟩ :=
          ofText_cases hparse
        all_goals
          rw [htext] at h
          cases h
        exact ⟨entries, rfl, hentries, hvalid⟩
  · rintro ⟨entries, hparse, hentries, hvalid⟩
    rw [ofText, hparse]
    dsimp only
    rw [hentries]
    dsimp only
    rw [hvalid]

theorem ofText_eq_content_iff {text : String} {entries : Entries} {fault : ContentFault}
    (hparse : f.read text = some entries) :
    ofText f text = .error (.content fault) ↔ ofEntries entries = .error fault := by
  obtain ⟨cause, hentries, htext⟩ | ⟨s, hentries, -, htext⟩ | ⟨s, hentries, -, htext⟩ :=
    ofText_cases hparse
  all_goals simp [hentries, htext]

theorem ofText_eq_invalid_iff {text : String} {entries : Entries} {s : Settings}
    (hparse : f.read text = some entries) (hentries : ofEntries entries = .ok s) :
    ofText f text = .error (.invalid .emptyBlocks) ↔ s.baseBlock = 0 := by
  obtain ⟨fault, h, htext⟩ | ⟨s', h, hzero, htext⟩ | ⟨s', h, hvalid, htext⟩ := ofText_cases hparse
  all_goals
    rw [hentries] at h
    cases h
  · exact iff_of_true htext hzero
  · refine iff_of_false ?_ (validate_eq_ok_iff.1 hvalid)
    rw [htext]
    exact nofun

theorem ofText_ne_malformed {text : String} {entries : Entries}
    (hparse : f.read text = some entries) : ofText f text ≠ .error .malformed := by
  obtain ⟨fault, -, htext⟩ | ⟨s, -, -, htext⟩ | ⟨s, -, -, htext⟩ := ofText_cases hparse
  all_goals
    rw [htext]
    exact nofun

/-- Where entries are followed, the base blocks are empty only if an entry says so. -/
theorem Follows.baseBlock_eq_zero_iff {entries : Entries} {s : Settings}
    (h : Follows .default entries s) :
    s.baseBlock = 0 ↔ ("base_block", Value.integer 0) ∈ entries := by
  have hvalue : s.valueAt "base_block" = some (.integer s.baseBlock) := rfl
  constructor
  · intro hzero
    rw [hzero] at hvalue
    by_cases hkey : "base_block" ∈ entries.keys
    · obtain ⟨⟨key, v⟩, hmem, hname⟩ := List.mem_map.1 hkey
      obtain rfl : key = "base_block" := hname
      rw [h.given _ v hmem] at hvalue
      rwa [Option.some.inj hvalue] at hmem
    · rw [h.kept _ hkey] at hvalue
      cases hvalue
  · intro hmem
    rw [h.given _ _ hmem] at hvalue
    exact (Int.natCast_eq_zero.1 (Value.integer.inj (Option.some.inj hvalue)).symm)

/--
**Which settings are read from a document.** It is refused for its content if one of its entries
is not as it has to be, and the first such entry says why. From any other document settings are
read that keep to its entries, and to the defaults where there are none; only empty base blocks are
refused after that. Settings that are read are valid. A document with the same entries in another
order exists, and gives the same settings.
-/
theorem ofText_reads_entries
    (hf : f.Lawful)
    {text : String}
    {entries : Entries}
    (hparse : f.read text = some entries)
    (horder : ∀ origin inner, ("order", Value.table origin inner) ∉ entries) :
    (ofText f text = .error .malformed ∨ (∃ fault, ofText f text = .error (.content fault)) ↔
      ∃ entry ∈ entries, ¬ Readable entry) ∧
    (∀ fault, ofText f text = .error (.content fault) ↔
      ∃ front entry back, entries = front ++ entry :: back ∧ (∀ e ∈ front, Readable e) ∧
        Wrong entry fault) ∧
    ((∀ entry ∈ entries, Readable entry) →
      (ofText f text = .error (.invalid .emptyBlocks) ↔
        ("base_block", Value.integer 0) ∈ entries) ∧
      (("base_block", Value.integer 0) ∉ entries →
        ∃ s, ofText f text = .ok s ∧ Follows ⟨.descending, 32, .four⟩ entries s)) ∧
    ∀ s, ofText f text = .ok s →
      s.validate = .ok () ∧
      ∀ entries' : Entries, entries'.Perm entries →
        (∃ text', f.read text' = some entries') ∧
        ∀ text', f.read text' = some entries' → ofText f text' = .ok s := by
  have hnodup := hf.nodup_keys hparse
  have hfits := hf.integers_fit hparse
  have hflat : ∀ entry ∈ entries, Flat entry := by
    rintro entry hentry origin inner rfl
    exact horder origin inner hentry
  have hread : (∃ s, ofEntries entries = .ok s) ↔ ∀ entry ∈ entries, Readable entry :=
    exists_foldlM_iff hflat hfits
  have hwrong {fault : ContentFault} : ofText f text = .error (.content fault) ↔
      ∃ front entry back, entries = front ++ entry :: back ∧ (∀ e ∈ front, Readable e) ∧
        Wrong entry fault :=
    (ofText_eq_content_iff hparse).trans (foldlM_eq_error_iff hflat hfits)
  have hfollows {s : Settings} (hs : ofEntries entries = .ok s) : Follows .default entries s :=
    follows_of_foldlM hnodup hflat hs
  refine ⟨?_, fun fault => hwrong, ?_, ?_⟩
  · rw [or_iff_right (ofText_ne_malformed hparse)]
    constructor
    · rintro ⟨fault, h⟩
      obtain ⟨front, entry, back, rfl, -, hentry⟩ := hwrong.1 h
      have hmem : entry ∈ front ++ entry :: back := by simp
      exact ⟨entry, hmem, (not_readable_iff (hflat _ hmem) (hfits _ hmem)).2 ⟨fault, hentry⟩⟩
    · rintro ⟨entry, hmem, hentry⟩
      cases hentries : ofEntries entries with
      | error fault => exact ⟨fault, (ofText_eq_content_iff hparse).2 hentries⟩
      | ok s => exact (hentry (hread.1 ⟨s, hentries⟩ entry hmem)).elim
  · intro hreadable
    obtain ⟨s, hs⟩ := hread.2 hreadable
    have hzero := (hfollows hs).baseBlock_eq_zero_iff
    refine ⟨(ofText_eq_invalid_iff hparse hs).trans hzero, ?_⟩
    intro hne
    rw [← hzero, ← Ne, ← validate_eq_ok_iff] at hne
    exact ⟨s, ofText_eq_ok_iff.2 ⟨entries, hparse, hs, hne⟩, hfollows hs⟩
  · intro s h
    obtain ⟨_, hsame, hs, hvalid⟩ := ofText_eq_ok_iff.1 h
    obtain rfl := Option.some.inj (hsame.symm.trans hparse)
    refine ⟨hvalid, ?_⟩
    intro entries' hperm
    have hnodup' : entries'.keys.Nodup := (hperm.map Prod.fst).nodup_iff.2 hnodup
    have hmem (entry : String × Value) (h' : entry ∈ entries') := hperm.mem_iff.1 h'
    have hplain (e : String × Value) (he : e ∈ entries') :=
      (hread.1 ⟨s, hs⟩ e (hmem e he)).isPlain
    obtain ⟨written, -, hwritten⟩ := hf.read_write hnodup' hplain
    refine ⟨⟨written, hwritten⟩, ?_⟩
    intro text' hparse'
    obtain ⟨s', hs'⟩ : ∃ s', ofEntries entries' = .ok s' :=
      (exists_foldlM_iff (fun e he => hflat e (hmem e he))
        fun e he => hfits e (hmem e he)).2 fun e he => hread.1 ⟨s, hs⟩ e (hmem e he)
    have hsame' : s' = s := by
      refine Follows.eq_of_perm (follows_of_foldlM hnodup' ?_ hs') (hfollows hs) hperm
      exact fun e he => hflat e (hmem e he)
    rw [hsame'] at hs'
    exact ofText_eq_ok_iff.2 ⟨entries', hparse', hs', hvalid⟩

end Documents

/--
Of two wrong entries the first is reported; two good ones may stand in either order, with a remark
behind them, and in quotes of either kind.
-/
theorem ofText_reads_entries_of_two_lines :
    format.Lawful ∧
    format.read "fan_out = 3\nmax_arity = 5\n" =
      some [("fan_out", .integer 3), ("max_arity", .integer 5)] ∧
    (∀ origin inner, ("order", Value.table origin inner) ∉
      [("fan_out", Value.integer 3), ("max_arity", .integer 5)]) ∧
    ofText format "fan_out = 3\nmax_arity = 5\n" =
      .error (.content (.unknownField "fan_out")) ∧
    format.read "max_arity = 3 # runs\norder = 'ascending'\n" =
      some [("max_arity", .integer 3), ("order", .string "ascending")] ∧
    (∀ origin inner, ("order", Value.table origin inner) ∉
      [("max_arity", Value.integer 3), ("order", .string "ascending")]) ∧
    ofText format "max_arity = 3 # runs\norder = 'ascending'\n" = .ok ⟨.ascending, 32, .three⟩ ∧
    ofText format "order = \"ascending\"\nmax_arity = 3\n" = .ok ⟨.ascending, 32, .three⟩ := by
  have hrefused : format.read "fan_out = 3\nmax_arity = 5\n" =
      some [("fan_out", .integer 3), ("max_arity", .integer 5)] :=
    parse_of_write (by decide) (by decide) rfl
  -- this is not how the entries are written
  have hread : format.read "max_arity = 3 # runs\norder = 'ascending'\n" =
      some [("max_arity", .integer 3), ("order", .string "ascending")] := by
    cbv
  have hswapped : format.read "order = \"ascending\"\nmax_arity = 3\n" =
      some [("order", .string "ascending"), ("max_arity", .integer 3)] :=
    parse_of_write (by decide) (by decide) rfl
  obtain ⟨-, hfault, -, -⟩ := ofText_reads_entries lawful_format hrefused (by simp)
  obtain ⟨-, -, hgood, hsame⟩ := ofText_reads_entries lawful_format hread (by simp)
  have hreadable : ∀ entry ∈ [("max_arity", Value.integer 3), ("order", .string "ascending")],
      Readable entry := by
    rw [List.forall_mem_cons, List.forall_mem_singleton]
    exact ⟨.maxArity (by decide), .order (by decide)⟩
  obtain ⟨s, hs, hfollows⟩ := (hgood hreadable).2 (by simp)
  have hfollows' : Follows ⟨.descending, 32, .four⟩
      [("max_arity", .integer 3), ("order", .string "ascending")] ⟨.ascending, 32, .three⟩ :=
    follows_of_foldlM (by decide) (by simp [Flat]) rfl
  obtain rfl := hfollows.eq_of_perm hfollows' (.refl _)
  refine ⟨lawful_format, hrefused, by simp, ?_, hread, by simp, hs, ?_⟩
  · exact (hfault _).2 ⟨[], _, _, rfl, by simp, .key (by decide)⟩
  · exact ((hsame _ hs).2 _ (.swap ..)).2 _ hswapped

end Settings
end KWayMerge
