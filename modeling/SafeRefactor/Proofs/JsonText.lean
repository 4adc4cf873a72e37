import Mathlib
import SafeRefactor.Json.Parser
import SafeRefactor.Json.Printer

/-!
# Reading back what was written

The JSON text of a value is read back as that value, whatever stands in its strings. Numbers have to
be integers that fit 64 bits, and values may not be nested more deeply than the reader allows. A
value is read with any text after it that could not be more of a number.
-/

set_option autoImplicit false

namespace SafeRefactor

namespace Text

theorem hexValue?_hexDigit {n : Nat} (h : n < 16) : hexValue? (hexDigit n) = some n := by
  have hall : ∀ m : Fin 16, hexValue? (hexDigit m) = some m.val := by decide
  exact hall ⟨n, h⟩

end Text

namespace Json

/-! ### Strings -/

theorem hex4?_of_control {c : Char} (h : c.toNat < 32) :
    hex4? '0' '0' (Text.hexDigit (c.toNat / 16)) (Text.hexDigit (c.toNat % 16)) = some c.toNat := by
  have hzero : Text.hexValue? '0' = some 0 := by decide
  have hhigh := Text.hexValue?_hexDigit (n := c.toNat / 16) (by omega)
  have hlow := Text.hexValue?_hexDigit (n := c.toNat % 16) (by omega)
  simp only [hex4?, hzero, hhigh, hlow, bind, Option.bind]
  congr 1
  omega

theorem readString_control {c : Char} (h : c.toNat < 32) (cs acc : List Char) :
    readString ('\\' :: 'u' :: '0' :: '0' :: Text.hexDigit (c.toNat / 16) ::
      Text.hexDigit (c.toNat % 16) :: cs) acc = readString cs (c :: acc) := by
  have hhigh : isHigh c.toNat = false := by simp [isHigh]; omega
  have hlow : isLow c.toNat = false := by simp [isLow]; omega
  have hvalue := hex4?_of_control h
  -- With the digits opaque the text fits the escapes of four digits only: one for a pair, and one
  -- alone.
  generalize Text.hexDigit (c.toNat / 16) = x at hvalue ⊢
  generalize Text.hexDigit (c.toNat % 16) = y at hvalue ⊢
  rw [readString.eq_def]
  split
  · next heq => simp at heq
  · next heq =>
    simp only [List.cons.injEq, true_and] at heq
    obtain ⟨rfl, rfl, rfl, rfl, rfl⟩ := heq
    simp [hvalue, hhigh, hlow]
  · next heq =>
    simp only [List.cons.injEq, true_and] at heq
    obtain ⟨rfl, rfl, rfl, rfl, rfl⟩ := heq
    simp [hvalue, hhigh, hlow]
  · next hshort heq =>
    simp only [List.cons.injEq, true_and] at heq
    obtain ⟨rfl, rfl⟩ := heq
    exact (hshort _ _ _ _ _ rfl rfl).elim
  · next hother heq =>
    simp only [List.cons.injEq] at heq
    exact (hother _ _ heq.1.symm heq.2.symm).elim
  · next heq => simp at heq

theorem readString_letter {c d : Char} (h : unescape? d = some c) (cs acc : List Char) :
    readString ('\\' :: d :: cs) acc = readString cs (c :: acc) := by
  have hu : d ≠ 'u' := by
    rintro rfl
    cases h
  rw [readString.eq_def]
  split <;> grind

theorem readString_plain {c : Char} (h : 32 ≤ c.toNat) (hquote : c ≠ '\x22') (hslash : c ≠ '\\')
    (cs acc : List Char) : readString (c :: cs) acc = readString cs (c :: acc) := by
  rw [readString.eq_def]
  split <;> grind

/-- An escaped character is read as the character. -/
theorem readString_escape (c : Char) (cs acc : List Char) :
    readString (escape c ++ cs) acc = readString cs (c :: acc) := by
  unfold escape
  split_ifs with hquote hslash hback hfeed hline hreturn htab hcontrol
  · exact readString_letter (by rw [hquote]; rfl) cs acc
  · exact readString_letter (by rw [hslash]; rfl) cs acc
  · exact readString_letter (by rw [hback]; rfl) cs acc
  · exact readString_letter (by rw [hfeed]; rfl) cs acc
  · exact readString_letter (by rw [hline]; rfl) cs acc
  · exact readString_letter (by rw [hreturn]; rfl) cs acc
  · exact readString_letter (by rw [htab]; rfl) cs acc
  · exact readString_control hcontrol cs acc
  · exact readString_plain (by omega) hquote hslash cs acc

theorem readString_quoted (s : List Char) (rest acc : List Char) :
    readString (s.flatMap escape ++ '\x22' :: rest) acc = some (String.ofList (acc.reverse ++ s),
      rest) := by
  induction s generalizing acc with
  | nil => simp [readString]
  | cons c s ih =>
    rw [List.flatMap_cons, List.append_assoc, readString_escape, ih]
    simp

/-! ### Numbers -/

/-- The text is no more of a number. -/
def Stops (cs : List Char) : Prop := ∀ c ∈ cs.head?, c.isDigit = false ∧ c ≠ '.' ∧ c ≠ 'e' ∧ c ≠ 'E'

theorem stops_cons {c : Char} (h : c.isDigit = false ∧ c ≠ '.' ∧ c ≠ 'e' ∧ c ≠ 'E')
    (cs : List Char) :
    Stops (c :: cs) := by
  intro d hd
  rw [List.head?_cons, Option.mem_some_iff] at hd
  exact hd ▸ h

theorem digitsValue_toDigits (n : Nat) : digitsValue (Nat.toDigits 10 n) = n := by
  have hstep : (fun (m : Nat) (c : Char) => m * 10 + (c.toNat - 48)) =
      fun m c => 10 * m + (c.toNat - '0'.toNat) := by
    funext m c
    rw [Nat.mul_comm]
    rfl
  rw [digitsValue, hstep]
  exact Nat.ofDigitChars_ten_toDigits

theorem head?_toDigits_ne_zero {n : Nat} (h : 0 < n) : (Nat.toDigits 10 n).head? ≠ some '0' := by
  induction n using Nat.strongRecOn with
  | ind n ih =>
    by_cases hn : n < 10
    · have hall : ∀ d : Fin 10, 0 < d.val → some (Nat.digitChar d) ≠ some '0' := by decide
      rw [Nat.toDigits_of_lt_base hn]
      exact hall ⟨n, hn⟩ h
    · have hhead := ih (n / 10) (by omega) (by omega)
      obtain ⟨d, ds, hdigits⟩ :=
        List.exists_cons_of_ne_nil (Nat.toDigits_ne_nil (b := 10) (n := n / 10))
      rw [Nat.toDigits_of_base_le (by decide) (by omega), hdigits]
      rwa [hdigits] at hhead

/-- No number but zero is written with a zero in front. -/
theorem not_padded (n : Nat) :
    ¬ ((Nat.toDigits 10 n).head? = some '0' ∧ 1 < (Nat.toDigits 10 n).length) := by
  rintro ⟨hhead, hlength⟩
  rcases Nat.eq_zero_or_pos n with rfl | hn
  · simp at hlength
  · exact head?_toDigits_ne_zero hn hhead

theorem isDigit_of_mem_toDigits {n : Nat} {c : Char} (h : c ∈ Nat.toDigits 10 n) :
    c.isDigit = true :=
  Nat.isDigit_of_mem_toDigits (by decide) (by decide) h

theorem readDigits?_toDigits (n : Nat) {rest : List Char} (h : Stops rest) :
    readDigits? (Nat.toDigits 10 n ++ rest) = some (Nat.toDigits 10 n, rest) := by
  have hstop : rest.takeWhile Char.isDigit = [] := by
    cases rest with
    | nil => rfl
    | cons c rest => simp [(h c rfl).1]
  have htake : (Nat.toDigits 10 n ++ rest).takeWhile Char.isDigit = Nat.toDigits 10 n := by
    rw [List.takeWhile_append_of_pos fun c hc => isDigit_of_mem_toDigits hc, hstop, List.append_nil]
  have hne : (Nat.toDigits 10 n).isEmpty = false := by simp [Nat.toDigits_ne_nil]
  simp [readDigits?, htake, hne]

theorem readFraction?_of_stops {rest : List Char} (h : Stops rest) :
    readFraction? rest = some ([], rest) := by
  unfold readFraction?
  split
  · exact absurd rfl (h '.' rfl).2.1
  · rfl

theorem readExponent?_of_stops {rest : List Char} (h : Stops rest) :
    readExponent? rest = some ([], rest) := by
  unfold readExponent?
  split
  · next e cs =>
    obtain ⟨-, -, hlower, hupper⟩ := h e rfl
    simp [hlower, hupper]
  · rfl

/-- An integer that fits 64 bits is read as what it is. -/
theorem readNumber_integerText {n : Int} (hlow : -(2 : Int) ^ 63 ≤ n) (hhigh : n < 2 ^ 64)
    {rest : List Char} (h : Stops rest) :
    readNumber ((integerText n).toList ++ rest) = some (integer n, rest) := by
  cases n with
  | ofNat n =>
    have hsmall : n < Nat.pow 2 64 := by
      have : (n : Int) < 2 ^ 64 := hhigh
      exact_mod_cast this
    obtain ⟨d, ds, hdigits⟩ := List.exists_cons_of_ne_nil (Nat.toDigits_ne_nil (b := 10) (n := n))
    have hd : d ≠ '-' := by
      rintro rfl
      have := isDigit_of_mem_toDigits (n := n) (c := '-') (by simp [hdigits])
      simp at this
    have hread := readDigits?_toDigits n h
    have htext : (integerText (.ofNat n)).toList = Nat.toDigits 10 n := by
      rw [integerText, Nat.toString_eq_ofList_toDigits, String.toList_ofList]
    rw [htext, readNumber]
    · simp only [hread, not_padded, readFraction?_of_stops h, readExponent?_of_stops h,
        digitsValue_toDigits, bind, Option.bind, if_false, List.isEmpty_nil, hsmall,
        Bool.false_eq_true, and_self, if_true]
      rfl
    · intro more hmore
      rw [hdigits, List.cons_append] at hmore
      exact hd (List.cons.inj hmore).1
  | negSucc n =>
    have hsmall : n + 1 ≤ Nat.pow 2 63 := by
      have : (n : Int) + 1 ≤ 2 ^ 63 := by omega
      exact_mod_cast this
    have hread := readDigits?_toDigits (n + 1) h
    have htext : (integerText (.negSucc n)).toList = '-' :: Nat.toDigits 10 (n + 1) := by
      simp [integerText]
    rw [htext, List.cons_append, readNumber]
    simp only [hread, not_padded, readFraction?_of_stops h, readExponent?_of_stops h,
      digitsValue_toDigits, bind, Option.bind, if_false, List.isEmpty_nil, hsmall, ne_eq,
      Nat.add_eq_zero_iff, Nat.one_ne_zero, and_false, not_false_eq_true, and_self, if_true]
    rfl

/-! ### Values -/

/-- The value holds integers of 64 bits and no other numbers, and nests at most to a given depth. -/
inductive Plain : Nat → Json → Prop where
  | null (depth : Nat) : Plain depth .null
  | bool (depth : Nat) (b : Bool) : Plain depth (.bool b)
  | integer (depth : Nat) {n : Int} : -(2 : Int) ^ 63 ≤ n → n < 2 ^ 64 → Plain depth (.integer n)
  | string (depth : Nat) (s : String) : Plain depth (.string s)
  | array {depth : Nat} {items : List Json} :
      (∀ v ∈ items, Plain depth v) → Plain (depth + 1) (.array items)
  | object {depth : Nat} {members : List (String × Json)} :
      (∀ m ∈ members, Plain depth m.2) → Plain (depth + 1) (.object members)

/-- A reader takes a text for a value, whatever follows it. The text shows from its first character
on that it is a value. -/
structure Reads (read : List Char → Option (Json × List Char)) (text : List Char) (v : Json) :
    Prop where
  begins : ∃ c cs, text = c :: cs ∧ isBlank c = false ∧ c ≠ ']'
  reads : ∀ rest, Stops rest → read (text ++ rest) = some (v, rest)

theorem skipBlanks_newLine (level : Nat) (cs : List Char) :
    skipBlanks ((newLine level).toList ++ cs) = skipBlanks cs := by
  have hblank : ∀ c ∈ (newLine level).toList, isBlank c = true := by
    intro c hc
    simp only [newLine, String.toList_append, String.toList_ofList, List.mem_append,
      List.mem_replicate] at hc
    rcases hc with hc | ⟨-, rfl⟩
    · obtain rfl : c = '\n' := by simpa using hc
      decide
    · decide
  rw [skipBlanks, List.dropWhile_append_of_pos hblank, skipBlanks]

theorem skipBlanks_of_not_blank {c : Char} (h : isBlank c = false) (cs : List Char) :
    skipBlanks (c :: cs) = c :: cs := by
  simp [skipBlanks, h]

variable {read : List Char → Option (Json × List Char)} {text : List Char} {v : Json}

theorem Reads.skipBlanks_eq (h : Reads read text v) (rest : List Char) :
    skipBlanks (text ++ rest) = text ++ rest := by
  obtain ⟨c, cs, rfl, hc, -⟩ := h.begins
  exact skipBlanks_of_not_blank hc _

theorem stops_newLine (level : Nat) (cs : List Char) : Stops ((newLine level).toList ++ cs) := by
  simp only [newLine, String.toList_append, List.append_assoc]
  exact stops_cons (by decide) _

theorem stops_items (level : Nat) (vs : List Json) {rest : List Char} (h : Stops rest) :
    Stops ((prettyItems level vs).toList ++ rest) := by
  cases vs with
  | nil => simpa [prettyItems] using h
  | cons v vs =>
    simp only [prettyItems, String.toList_append, List.append_assoc]
    exact stops_cons (by decide) _

theorem stops_members (level : Nat) (ms : List (String × Json)) {rest : List Char}
    (h : Stops rest) :
    Stops ((prettyMembers level ms).toList ++ rest) := by
  cases ms with
  | nil => simpa [prettyMembers] using h
  | cons m ms =>
    simp only [prettyMembers, String.toList_append, List.append_assoc]
    exact stops_cons (by decide) _

theorem length_le_items (level : Nat) (vs : List Json) :
    vs.length ≤ (prettyItems level vs).toList.length := by
  induction vs with
  | nil => simp
  | cons v vs ih =>
    simp only [prettyItems, String.toList_append, List.length_append, List.length_cons]
    have hcomma : ",".toList.length = 1 := rfl
    omega

theorem length_le_members (level : Nat) (ms : List (String × Json)) :
    ms.length ≤ (prettyMembers level ms).toList.length := by
  induction ms with
  | nil => simp
  | cons m ms ih =>
    simp only [prettyMembers, String.toList_append, List.length_append, List.length_cons]
    have hcomma : ",".toList.length = 1 := rfl
    omega

/-- The items of an array are read one by one up to its bracket. -/
theorem readItems_prettyItems (level outer : Nat) {vs : List Json}
    (h : ∀ v ∈ vs, Reads read (prettyAt level v).toList v) (acc : List Json) {fuel : Nat}
    (hfuel : vs.length < fuel) (rest : List Char) :
    readItems read fuel acc
    ((prettyItems level vs).toList ++ ((newLine outer).toList ++ ']' :: rest)) =
      some (acc.reverse ++ vs, rest) := by
  induction vs generalizing acc fuel with
  | nil =>
    obtain ⟨fuel, rfl⟩ := Nat.exists_eq_add_one_of_ne_zero (Nat.ne_of_gt hfuel)
    simp only [prettyItems, readItems, String.toList_empty, List.nil_append, skipBlanks_newLine,
      skipBlanks_of_not_blank (show isBlank ']' = false by decide), List.append_nil]
  | cons v vs ih =>
    obtain ⟨fuel, rfl⟩ := Nat.exists_eq_add_one_of_ne_zero (Nat.ne_zero_of_lt hfuel)
    have hv := h v (by simp)
    have hstops := stops_items level vs (stops_newLine outer (']' :: rest))
    have hcomma : ∀ cs, skipBlanks (",".toList ++ cs) = ',' :: cs := fun cs =>
      skipBlanks_of_not_blank (by decide) cs
    simp only [prettyItems, String.toList_append, List.append_assoc, readItems, hcomma,
      skipBlanks_newLine, hv.skipBlanks_eq, hv.reads _ hstops]
    rw [ih (fun w hw => h w (by simp [hw])) (v :: acc) (by simpa using hfuel)]
    simp

theorem quote_toList_append (s : String) (cs : List Char) :
    (quote s).toList ++ cs = '\x22' :: (s.toList.flatMap escape ++ '\x22' :: cs) := by
  simp [quote]

/-- A member is read with its name and its value. -/
theorem readMember_written (k : String) (h : Reads read text v) {rest : List Char}
    (hrest : Stops rest) :
    readMember read ((quote k).toList ++ (": ".toList ++ (text ++ rest))) =
      some ((k, v), rest) := by
  have hcolon : ": ".toList ++ (text ++ rest) = ':' :: ' ' :: (text ++ rest) := rfl
  have hblank : skipBlanks (' ' :: (text ++ rest)) = text ++ rest := by
    rw [skipBlanks, List.dropWhile_cons_of_pos (by decide), ← skipBlanks, h.skipBlanks_eq]
  rw [readMember, quote_toList_append, hcolon, skipBlanks_of_not_blank (by decide)]
  simp only [readString_quoted, List.reverse_nil, List.nil_append, String.ofList_toList, bind,
    Option.bind, skipBlanks_of_not_blank (show isBlank ':' = false by decide), hblank,
    h.reads rest hrest]

theorem readMember_newLine (level : Nat) (cs : List Char) :
    readMember read ((newLine level).toList ++ cs) = readMember read cs := by
  rw [readMember, skipBlanks_newLine, readMember]

/-- The members of an object are read one by one up to its brace. -/
theorem readMembers_prettyMembers (level outer : Nat) {ms : List (String × Json)}
    (h : ∀ m ∈ ms, Reads read (prettyAt level m.2).toList m.2) (acc : List (String × Json))
    {fuel : Nat} (hfuel : ms.length < fuel) (rest : List Char) :
    readMembers read fuel acc
        ((prettyMembers level ms).toList ++ ((newLine outer).toList ++ '\x7d' :: rest)) =
      some (acc.reverse ++ ms, rest) := by
  induction ms generalizing acc fuel with
  | nil =>
    obtain ⟨fuel, rfl⟩ := Nat.exists_eq_add_one_of_ne_zero (Nat.ne_of_gt hfuel)
    simp only [prettyMembers, readMembers, String.toList_empty, List.nil_append, skipBlanks_newLine,
      skipBlanks_of_not_blank (show isBlank '\x7d' = false by decide), List.append_nil]
  | cons m ms ih =>
    obtain ⟨k, v⟩ := m
    obtain ⟨fuel, rfl⟩ := Nat.exists_eq_add_one_of_ne_zero (Nat.ne_zero_of_lt hfuel)
    have hv := h (k, v) (by simp)
    have hstops := stops_members level ms (stops_newLine outer ('\x7d' :: rest))
    have hcomma : ∀ cs, skipBlanks (",".toList ++ cs) = ',' :: cs := fun cs =>
      skipBlanks_of_not_blank (by decide) cs
    simp only [prettyMembers, String.toList_append, List.append_assoc, readMembers, hcomma,
      readMember_newLine, readMember_written k hv hstops]
    rw [ih (fun n hn => h n (by simp [hn])) ((k, v) :: acc) (by simpa using hfuel)]
    simp

theorem integerText_begins (n : Int) :
    ∃ c cs, (integerText n).toList = c :: cs ∧ (c = '-' ∨ c.isDigit = true) := by
  cases n with
  | ofNat n =>
    obtain ⟨d, ds, hdigits⟩ := List.exists_cons_of_ne_nil (Nat.toDigits_ne_nil (b := 10) (n := n))
    refine ⟨d, ds, ?_, .inr (isDigit_of_mem_toDigits (n := n) (by simp [hdigits]))⟩
    rw [integerText, Nat.toString_eq_ofList_toDigits, String.toList_ofList, hdigits]
  | negSucc n => exact ⟨'-', (toString (n + 1)).toList, by simp [integerText], .inl rfl⟩

theorem reads_integer {n : Int} (hlow : -(2 : Int) ^ 63 ≤ n) (hhigh : n < 2 ^ 64) (depth : Nat) :
    Reads (readValue depth) (integerText n).toList (.integer n) := by
  obtain ⟨c, cs, htext, hc⟩ := integerText_begins n
  have hnot : ∀ d : Char, d.isDigit = false → d ≠ '-' → c ≠ d := by
    rintro d hdigit hminus rfl
    exact hc.elim hminus fun h => by simp [hdigit] at h
  have hblank : isBlank c = false := by
    simp only [isBlank, Bool.or_eq_false_iff, decide_eq_false_iff_not]
    exact ⟨⟨⟨hnot _ (by decide) (by decide), hnot _ (by decide) (by decide)⟩,
      hnot _ (by decide) (by decide)⟩, hnot _ (by decide) (by decide)⟩
  refine ⟨⟨c, cs, htext, hblank, hnot _ (by decide) (by decide)⟩, ?_⟩
  intro rest hrest
  have hnumber := readNumber_integerText hlow hhigh hrest
  rw [htext, List.cons_append] at hnumber ⊢
  unfold readValue
  split
  · next heq => exact absurd (List.cons.inj heq).1 (hnot _ (by decide) (by decide))
  · next heq => exact absurd (List.cons.inj heq).1 (hnot _ (by decide) (by decide))
  · next heq => exact absurd (List.cons.inj heq).1 (hnot _ (by decide) (by decide))
  · next heq => rw [← (List.cons.inj heq).1, if_pos hc, hnumber]
  · next heq => cases heq

theorem reads_string (s : String) (depth : Nat) :
    Reads (readValue depth) (quote s).toList (.string s) := by
  refine ⟨⟨'\x22', s.toList.flatMap escape ++ ['\x22'], by simp [quote], by decide, by decide⟩, ?_⟩
  intro rest _
  rw [quote_toList_append, readValue]
  simp only [readString_quoted, List.reverse_nil, List.nil_append, String.ofList_toList,
    Option.map_some]

/-- An array is read when its items are. -/
theorem reads_array {depth : Nat} (level : Nat) {items : List Json}
    (h : ∀ v ∈ items, Reads (readValue depth) (prettyAt (level + 1) v).toList v) :
    Reads (readValue (depth + 1)) (prettyAt level (.array items)).toList (.array items) := by
  cases items with
  | nil =>
    refine ⟨⟨'[', [']'], by simp [prettyAt], by decide, by decide⟩, fun rest _ => ?_⟩
    simp [prettyAt, readValue, skipBlanks, isBlank]
  | cons v vs =>
    have hv := h v (by simp)
    obtain ⟨c, cs, htext, hblank, hclose⟩ := hv.begins
    have hwritten : ∀ rest, (prettyAt level (.array (v :: vs))).toList ++ rest =
        '[' :: ((newLine (level + 1)).toList ++ ((prettyAt (level + 1) v).toList ++
          ((prettyItems (level + 1) vs).toList ++ ((newLine level).toList ++ ']' :: rest)))) := by
      intro rest
      simp [prettyAt]
    refine ⟨⟨'[', _, by simpa using hwritten [], by decide, by decide⟩, fun rest _ => ?_⟩
    have hstops := stops_items (level + 1) vs (stops_newLine level (']' :: rest))
    have hread := hv.reads _ hstops
    have hlength := length_le_items (level + 1) vs
    rw [hwritten, readValue, skipBlanks_newLine, hv.skipBlanks_eq]
    generalize hrest : (prettyItems (level + 1) vs).toList ++
      ((newLine level).toList ++ ']' :: rest) = more
      at hread ⊢
    have hmore : vs.length < more.length + 1 := by
      rw [← hrest, List.length_append]
      omega
    have hitems := readItems_prettyItems (level + 1) level (fun w hw => h w (by simp [hw]))
      [v] hmore rest
    rw [hrest] at hitems
    rw [htext, List.cons_append] at hread ⊢
    split
    · next heq => exact absurd (List.cons.inj heq).1 hclose
    · simp [hread, hitems]

/-- An object is read when its members are. -/
theorem reads_object {depth : Nat} (level : Nat) {members : List (String × Json)}
    (h : ∀ m ∈ members, Reads (readValue depth) (prettyAt (level + 1) m.2).toList m.2) :
    Reads (readValue (depth + 1)) (prettyAt level (.object members)).toList (.object members) := by
  cases members with
  | nil =>
    refine ⟨⟨'\x7b', ['\x7d'], by simp [prettyAt], by decide, by decide⟩, fun rest _ => ?_⟩
    simp [prettyAt, readValue, skipBlanks, isBlank]
  | cons m ms =>
    obtain ⟨k, v⟩ := m
    have hv := h (k, v) (by simp)
    have hwritten : ∀ rest, (prettyAt level (.object ((k, v) :: ms))).toList ++ rest =
        '\x7b' :: ((newLine (level + 1)).toList ++ ((quote k).toList ++ (": ".toList ++
          ((prettyAt (level + 1) v).toList ++
            ((prettyMembers (level + 1) ms).toList ++
              ((newLine level).toList ++ '\x7d' :: rest)))))) := by
      intro rest
      simp [prettyAt]
    refine ⟨⟨'\x7b', _, by simpa using hwritten [], by decide, by decide⟩, fun rest _ => ?_⟩
    have hstops := stops_members (level + 1) ms (stops_newLine level ('\x7d' :: rest))
    have hlength := length_le_members (level + 1) ms
    have hread := readMember_written k hv hstops
    rw [hwritten, readValue, skipBlanks_newLine]
    generalize hrest : (prettyMembers (level + 1) ms).toList ++
      ((newLine level).toList ++ '\x7d' :: rest) = more at hread ⊢
    have hmore : ms.length < more.length + 1 := by
      rw [← hrest, List.length_append]
      omega
    have hmembers := readMembers_prettyMembers (level + 1) level (fun n hn => h n (by simp [hn]))
      [(k, v)]
      hmore rest
    rw [hrest] at hmembers
    rw [quote_toList_append] at hread ⊢
    rw [skipBlanks_of_not_blank (by decide)]
    split
    · next heq => exact absurd (List.cons.inj heq).1 (by decide)
    · simp only [hread, hmembers, Option.map_some, List.reverse_cons, List.reverse_nil,
        List.nil_append, List.singleton_append]

/-- A value is read back from its text, at any indentation. -/
theorem reads_prettyAt {depth : Nat} (h : Plain depth v) (level : Nat) :
    Reads (readValue depth) (prettyAt level v).toList v := by
  induction h generalizing level with
  | null depth =>
    refine ⟨⟨'n', ['u', 'l', 'l'], by simp [prettyAt], by decide, by decide⟩, fun rest _ => ?_⟩
    simp [prettyAt, readValue, readWord?]
  | bool depth b =>
    cases b with
    | true =>
      refine ⟨⟨'t', ['r', 'u', 'e'], by simp [prettyAt], by decide, by decide⟩, fun rest _ => ?_⟩
      simp [prettyAt, readValue, readWord?]
    | false =>
      refine ⟨⟨'f', ['a', 'l', 's', 'e'], by simp [prettyAt], by decide, by decide⟩,
        fun rest _ => ?_⟩
      simp [prettyAt, readValue, readWord?]
  | integer depth hlow hhigh => simpa [prettyAt] using reads_integer hlow hhigh depth
  | string depth s => simpa [prettyAt] using reads_string s depth
  | array _ ih => exact reads_array level fun v hv => ih v hv (level + 1)
  | object _ ih => exact reads_object level fun m hm => ih m hm (level + 1)

/-- The text of a value, with an end of line after it, spells that value. -/
theorem parse_pretty (h : Plain maxNesting v) : parse (pretty v ++ "\n") = some v := by
  have hreads := reads_prettyAt h 0
  have hend : Stops ['\n'] := stops_cons (by decide) []
  rw [parse, pretty, String.toList_append, hreads.skipBlanks_eq, show "\n".toList = ['\n'] from rfl,
    hreads.reads _ hend]
  rfl

end Json

end SafeRefactor
