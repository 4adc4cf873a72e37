import SafeRefactor.Output
import SafeRefactor.Proofs.JsonText

/-!
# Reading back an output

The JSON that is shown for a list of sources is read back as that list, as long as its numbers are
ones that the program can hold: 64 bits for lines, columns and seconds, and less than a second for
what is left of it. Each record is taken through its value first (`Kept`); the text of the value
then does no harm.
-/

set_option autoImplicit false

namespace SafeRefactor

namespace Json

theorem Plain.mono {depth depth' : Nat} {v : Json} (h : Plain depth v) (hle : depth ≤ depth') :
    Plain depth' v := by
  induction h generalizing depth' with
  | null depth => exact .null depth'
  | bool depth b => exact .bool depth' b
  | integer depth hlow hhigh => exact .integer depth' hlow hhigh
  | string depth s => exact .string depth' s
  | array _ ih =>
    obtain ⟨more, rfl⟩ := Nat.exists_eq_add_of_lt hle
    exact .array fun v hv => ih v hv (by omega)
  | object _ ih =>
    obtain ⟨more, rfl⟩ := Nat.exists_eq_add_of_lt hle
    exact .object fun m hm => ih m hm (by omega)

/-- What is written for an item nests no more deeply than `depth`, and is read as the item. -/
structure Kept {α : Type} (write : α → Json) (read : Json → Option α) (depth : Nat) (a : α) :
    Prop where
  plain : Plain depth (write a)
  back : read (write a) = some a

theorem kept_text (s : String) : Kept string text? 0 s := ⟨.string 0 s, rfl⟩

theorem kept_bool (b : Bool) : Kept bool bool? 0 b := ⟨.bool 0 b, rfl⟩

theorem kept_below {bound n : Nat} (hbound : bound ≤ 2 ^ 64) (h : n < bound) :
    Kept nat (below? bound) 0 n := by
  have hlarge : (n : Int) < 2 ^ 64 := by
    have : n < 2 ^ 64 := by omega
    exact_mod_cast this
  refine ⟨.integer 0 (by omega) hlarge, ?_⟩
  simp [nat, below?, h]

theorem kept_nat {n : Nat} (h : n < 2 ^ 64) : Kept nat nat? 0 n := kept_below (Nat.le_refl _) h

theorem kept_entry {α : Type} {all : List α} {key : α → String} {a : α}
    (h : all.find? (fun b => key b == key a) = some a) :
    Kept (fun a => string (key a)) ( entry? all key) 0 a :=
  ⟨.string 0 (key a), h⟩

theorem kept_list {α : Type} {write : α → Json} {read : Json → Option α} {depth : Nat} {as : List α}
    (h : ∀ a ∈ as, Kept write read depth a) :
    Kept (fun as => array (as.map write)) (list? read) (depth + 1) as := by
  constructor
  · refine .array fun v hv => ?_
    obtain ⟨a, ha, rfl⟩ := List.mem_map.mp hv
    exact (h a ha).plain
  · rw [list?]
    induction as with
    | nil => rfl
    | cons a as ih =>
      have hrest := ih fun b hb => h b (by simp [hb])
      simp only [List.map_cons, readAll, (h a (by simp)).back, hrest, Option.map_some]

theorem kept_strings (l : List String) :
    Kept strings (list? text?) 1 l := kept_list fun s _ => kept_text s

theorem plain_ofOption (s : Option String) : Plain 0 (ofOption s) := by
  cases s with
  | none => exact .null 0
  | some s => exact .string 0 s

theorem member?_of_notMem {members : List (String × Json)} {name : String}
    (h : name ∉ members.map Prod.fst) : member? name members = none := by
  induction members with
  | nil => rfl
  | cons m members ih =>
    rw [List.map_cons, List.mem_cons, not_or] at h
    rw [member?, ih h.2]
    exact if_neg (Ne.symm h.1)

/-- Among members with different names each is found by its own. -/
theorem member?_of_mem {members : List (String × Json)} (hnames : (members.map Prod.fst).Nodup)
    {name : String} {v : Json} (h : (name, v) ∈ members) : member? name members = some v := by
  induction members with
  | nil => cases h
  | cons m members ih =>
    rw [List.map_cons, List.nodup_cons] at hnames
    rcases List.mem_cons.mp h with rfl | h
    · rw [member?, member?_of_notMem hnames.1]
      exact if_pos rfl
    · rw [member?, ih hnames.2 h]

/-- To read an object it is enough to know that each of its members is the field of its name and
place. -/
theorem read_object {α : Type} {members : List (String × Json)} {fields : List String}
    {read : Record → Option α} {a : α} (hnames : (members.map Prod.fst).Nodup)
    (h : ∀ r : Record, (∀ (place : Nat) {name : String} {v : Json},
      members[place]? = some (name, v) → r.field? name place = some v) → read r = some a) :
    ((object members).record? fields >>= read) = some a := by
  have hrecord : (object members).record? fields = some (.named members) := by
    refine if_pos (List.all_eq_true.mpr fun f _ => ?_)
    exact decide_eq_true (List.nodup_iff_count_le_one.mp hnames f)
  rw [hrecord]
  exact h (.named members) fun _ _ _ hmember => member?_of_mem hnames (List.mem_of_getElem? hmember)

theorem required_kept {α : Type} {write : α → Json} {read : Json → Option α} {depth : Nat} {a : α}
    (h : Kept write read depth a) {r : Record} {name : String} {place : Nat}
    (hfield : r.field? name place = some (write a)) : r.required name place read = some a := by
  simp only [Record.required, hfield, h.back]

theorem defaulted_kept {α : Type} {write : α → Json} {read : Json → Option α} {depth : Nat} {a : α}
    (h : Kept write read depth a) (default : α) {r : Record} {name : String} {place : Nat}
    (hfield : r.field? name place = some (write a)) :
    r.defaulted name place default read = some a := by
  simp only [Record.defaulted, hfield, h.back]

theorem optional_kept {α : Type} {write : α → Json} {read : Json → Option α} {depth : Nat} {a : α}
    (h : Kept write read depth a) (hnull : write a ≠ null) {r : Record} {name : String}
    {place : Nat} (hfield : r.field? name place = some (write a)) :
    r.optional name place read = some (some a) := by
  unfold Record.optional
  rw [hfield]
  split
  · next heq => exact absurd (Option.some.inj heq) hnull
  · next heq => rw [← Option.some.inj heq, h.back, Option.map_some]
  · next heq => cases heq

/-- A text that may be missing is read from a field of the record that it was written to. -/
theorem optional_ofOption (s : Option String) {r : Record} {name : String} {place : Nat}
    (h : r.field? name place = some (ofOption s)) : r.optional name place text? = some s := by
  cases s with
  | none => simp [Record.optional, h, ofOption]
  | some s => exact optional_kept (kept_text s) (by simp) h

end Json

open Json (Plain Kept)

theorem Rule.kept (r : Rule) : Kept toJson ofJson? 0 r := Json.kept_entry (by cases r <;> decide)

theorem Category.kept (c : Category) : Kept toJson ofJson? 0 c :=
  Json.kept_entry (by cases c <;> decide)

theorem Severity.kept (s : Severity) : Kept toJson ofJson? 0 s :=
  Json.kept_entry (by cases s <;> decide)

theorem Confidence.kept (c : Confidence) : Kept toJson ofJson? 0 c :=
  Json.kept_entry (by cases c <;> decide)

theorem Complexity.kept (c : Complexity) : Kept toJson ofJson? 0 c :=
  Json.kept_entry (by cases c <;> decide)

/-- The lines of the range are numbered in 64 bits. -/
structure LineRange.Representable (r : LineRange) : Prop where
  first : r.first < 2 ^ 64
  last : r.last < 2 ^ 64

theorem LineRange.kept {r : LineRange} (h : r.Representable) : Kept toJson ofJson? 1 r := by
  have hfirst := Json.kept_nat h.first
  have hlast := Json.kept_nat h.last
  constructor
  · refine .object fun m hm => ?_
    simp only [List.mem_cons, List.not_mem_nil, or_false] at hm
    rcases hm with rfl | rfl
    · exact hfirst.plain
    · exact hlast.plain
  · refine Json.read_object (by simp) fun r hr => ?_
    simp only [Option.bind_eq_bind, Json.required_kept hfirst (hr 0 rfl),
      Json.required_kept hlast (hr 1 rfl), Option.bind_some]

structure Issue.Representable (i : Issue) : Prop where
  line : i.line < 2 ^ 64
  column : i.column < 2 ^ 64
  range : i.range.Representable

theorem Issue.kept {i : Issue} (h : i.Representable) : Kept toJson ofJson? 2 i := by
  have hrule := i.rule.kept
  have hcategory := i.category.kept
  have hline := Json.kept_nat h.line
  have hcolumn := Json.kept_nat h.column
  have hseverity := i.severity.kept
  have hconfidence := i.confidence.kept
  have hrange := LineRange.kept h.range
  constructor
  · refine .object fun m hm => ?_
    simp only [List.mem_cons, List.not_mem_nil, or_false] at hm
    rcases hm with rfl | rfl | rfl | rfl | rfl | rfl | rfl | rfl | rfl | rfl | rfl
    · exact hrule.plain.mono (by omega)
    · exact hcategory.plain.mono (by omega)
    · exact hline.plain.mono (by omega)
    · exact hcolumn.plain.mono (by omega)
    · exact hseverity.plain.mono (by omega)
    · exact hconfidence.plain.mono (by omega)
    · exact .string 1 i.description
    · exact .string 1 i.snippet
    · exact hrange.plain
    · exact (Json.plain_ofOption i.fix).mono (by omega)
    · exact .string 1 i.rationale
  · refine Json.read_object (by simp) fun r hr => ?_
    simp only [Option.bind_eq_bind, Json.required_kept hrule (hr 0 rfl),
      Json.required_kept hcategory (hr 1 rfl), Json.required_kept hline (hr 2 rfl),
      Json.required_kept hcolumn (hr 3 rfl), Json.required_kept hseverity (hr 4 rfl),
      Json.required_kept hconfidence (hr 5 rfl),
      Json.required_kept (Json.kept_text i.description) (hr 6 rfl),
      Json.required_kept (Json.kept_text i.snippet) (hr 7 rfl),
      Json.required_kept hrange (hr 8 rfl), Json.optional_ofOption i.fix (hr 9 rfl),
      Json.required_kept (Json.kept_text i.rationale) (hr 10 rfl), Option.bind_some]

theorem Failure.kept (f : Failure) : Kept toJson ofJson? 1 f := by
  have hrule := f.rule.kept
  constructor
  · refine .object fun m hm => ?_
    simp only [List.mem_cons, List.not_mem_nil, or_false] at hm
    rcases hm with rfl | rfl
    · exact hrule.plain
    · exact .string 0 f.message
  · refine Json.read_object (by simp) fun r hr => ?_
    simp only [Option.bind_eq_bind, Json.required_kept hrule (hr 0 rfl),
      Json.required_kept (Json.kept_text f.message) (hr 1 rfl), Option.bind_some]

/-- The issues of the plan are at places that can be counted in 64 bits. -/
def Plan.Representable (p : Plan) : Prop := ∀ i ∈ p.issues, i.Representable

theorem Plan.kept {p : Plan} (h : p.Representable) : Kept toJson ofJson? 4 p := by
  have hissues := Json.kept_list fun i hi => Issue.kept (h i hi)
  have hfailures := Json.kept_list fun f (_ : f ∈ p.failures) => Failure.kept f
  have hcomplexity := p.complexity.kept
  constructor
  · refine .object fun m hm => ?_
    simp only [members, List.mem_cons, List.not_mem_nil, or_false] at hm
    rcases hm with rfl | rfl | rfl | rfl | rfl | rfl | rfl
    · exact (Json.plain_ofOption p.sourceId).mono (by omega)
    · exact .string 3 p.digest
    · exact hissues.plain
    · exact hcomplexity.plain.mono (by omega)
    · exact .bool 3 p.safeToApply
    · exact (Json.plain_ofOption p.refusal).mono (by omega)
    · exact hfailures.plain.mono (by omega)
  · refine Json.read_object (by simp [members]) fun r hr => ?_
    simp only [Option.bind_eq_bind, Json.optional_ofOption p.sourceId (hr 0 rfl),
      Json.required_kept (Json.kept_text p.digest) (hr 1 rfl),
      Json.required_kept hissues (hr 2 rfl), Json.required_kept hcomplexity (hr 3 rfl),
      Json.required_kept (Json.kept_bool p.safeToApply) (hr 4 rfl),
      Json.optional_ofOption p.refusal (hr 5 rfl), Json.defaulted_kept hfailures [] (hr 6 rfl),
      Option.bind_some]

structure Duration.Representable (d : Duration) : Prop where
  secs : d.secs < 2 ^ 64
  nanos : d.nanos < 10 ^ 9

theorem Duration.ofParts?_self {d : Duration} (h : d.Representable) :
    ofParts? d.secs d.nanos = some d := by
  have hwhole : d.nanos / 1000000000 = 0 := Nat.div_eq_of_lt h.nanos
  have hrest : d.nanos % 1000000000 = d.nanos := Nat.mod_eq_of_lt h.nanos
  have hsecs : d.secs < Nat.pow 2 64 := h.secs
  simp [ofParts?, hwhole, hrest, hsecs]

theorem Duration.kept {d : Duration} (h : d.Representable) : Kept toJson ofJson? 1 d := by
  have hsmall : d.nanos < Nat.pow 2 32 := Nat.lt_trans h.nanos (by decide)
  have hsecs := Json.kept_nat h.secs
  have hnanos := Json.kept_below (by decide) hsmall
  constructor
  · refine .object fun m hm => ?_
    simp only [List.mem_cons, List.not_mem_nil, or_false] at hm
    rcases hm with rfl | rfl
    · exact hsecs.plain
    · exact hnanos.plain
  · refine Json.read_object (by simp) fun r hr => ?_
    simp only [Option.bind_eq_bind, Json.required_kept hsecs (hr 0 rfl),
      Json.required_kept hnanos (hr 1 rfl), Option.bind_some, ofParts?_self h]

theorem Execution.kept {e : Execution} (h : e.duration.Representable) :
    Kept toJson ofJson? 2 e := by
  have hchanges := Json.kept_strings e.changes
  have herrors := Json.kept_strings e.errors
  have hduration := Duration.kept h
  constructor
  · refine .object fun m hm => ?_
    simp only [members, List.cons_append, List.nil_append, List.mem_cons, List.not_mem_nil,
      or_false] at hm
    rcases hm with rfl | rfl | rfl | rfl | rfl | rfl | rfl
    · exact .bool 1 e.success
    · exact .string 1 e.before
    · exact (Json.plain_ofOption e.after).mono (by omega)
    · exact hchanges.plain
    · exact herrors.plain
    · exact (Json.plain_ofOption e.diff).mono (by omega)
    · exact hduration.plain
  · refine Json.read_object (by simp [members]) fun r hr => ?_
    simp only [Option.bind_eq_bind, Json.required_kept (Json.kept_bool e.success) (hr 0 rfl),
      Json.required_kept (Json.kept_text e.before) (hr 1 rfl),
      Json.optional_ofOption e.after (hr 2 rfl), Json.required_kept hchanges (hr 3 rfl),
      Json.required_kept herrors (hr 4 rfl), Json.optional_ofOption e.diff (hr 5 rfl),
      Json.required_kept hduration (hr 6 rfl), Option.bind_some]

/-- The numbers of the unit are ones that the program can hold. -/
structure UnitOutput.Representable (u : UnitOutput) : Prop where
  plan : u.plan.Representable
  duration : ∀ e ∈ u.execution, e.duration.Representable

theorem UnitOutput.kept {u : UnitOutput} (h : u.Representable) : Kept toJson ofJson? 5 u := by
  obtain ⟨plan, execution⟩ := u
  have hplan := Plan.kept h.plan
  cases execution with
  | none =>
    constructor
    · refine .object fun m hm => ?_
      obtain rfl := List.mem_singleton.mp hm
      exact hplan.plain
    · simp [ofJson?, toJson, Json.record?, Json.Record.required, Json.Record.field?, Json.member?,
        hplan.back, Json.Record.optional]
  | some e =>
    have hexecution := Execution.kept (h.duration e rfl)
    constructor
    · refine .object fun m hm => ?_
      simp only [List.mem_cons, List.not_mem_nil, or_false] at hm
      rcases hm with rfl | rfl
      · exact hplan.plain
      · exact hexecution.plain.mono (by omega)
    · have hnull : e.toJson ≠ .null := by simp [Execution.toJson]
      refine Json.read_object (by simp) fun r hr => ?_
      simp only [Option.bind_eq_bind, Json.required_kept hplan (hr 0 rfl),
        Json.optional_kept hexecution hnull (hr 1 rfl), Option.bind_some]

/-- The sources that a JSON output shows are the ones it was written for, each with its plan and
with the result of its execution if there was one. -/
theorem readUnits?_renderUnits (units : List UnitOutput) (h : ∀ u ∈ units, u.Representable) :
    readUnits? (renderUnits units .json) = some units := by
  have hunits := Json.kept_list fun u hu => UnitOutput.kept (h u hu)
  have hplain := hunits.plain.mono (show 5 + 1 ≤ Json.maxNesting by decide)
  rw [readUnits?, renderUnits, Json.parse_pretty hplain]
  exact hunits.back

/-- Texts with all that has to be escaped and beyond, and the largest numbers. -/
def UnitOutput.sample (execution : Option Execution) : UnitOutput where
  plan :=
    { sourceId := some "a \"b\"\\c.py", digest := "", complexity := .medium, safeToApply := false,
      refusal := none, failures := [⟨.dynamicCodeExecution, "\u0001\u007f\r\n"⟩],
      issues := [{ rule := .missingTypeHint, category := .typeSafety, line := 2 ^ 64 - 1,
                   column := 2 ^ 64 - 1, severity := .critical, confidence := .refuse,
                   description := "é\t😀", snippet := "\u0000/\u2028", range := ⟨2 ^ 64 - 1, 0⟩,
                   fix := none, rationale := "[\x7b,:" }] }
  execution

theorem readUnits?_renderUnits_escaped :
    let e : Execution :=
      ⟨false, "\\u0041", none, ["", "\u001f"], [], some "null", ⟨2 ^ 64 - 1, 10 ^ 9 - 1⟩⟩
    let units := [UnitOutput.sample none, UnitOutput.sample (some e)]
    (∀ u ∈ units, u.Representable) ∧ readUnits? (renderUnits units .json) = some units := by
  intro e units
  have he : e.duration.Representable := ⟨by decide, by decide⟩
  have hplan : ∀ x, (UnitOutput.sample x).plan.Representable := by
    intro x i hi
    obtain rfl := List.mem_singleton.mp hi
    exact ⟨by decide, by decide, ⟨by decide, by decide⟩⟩
  have hunits : ∀ u ∈ units, u.Representable := by
    intro u hu
    simp only [units, List.mem_cons, List.not_mem_nil, or_false] at hu
    rcases hu with rfl | rfl
    · exact ⟨hplan none, fun _ h => by cases h⟩
    · exact ⟨hplan (some e), fun _ h => by cases h; exact he⟩
  exact ⟨hunits, readUnits?_renderUnits units hunits⟩

end SafeRefactor
