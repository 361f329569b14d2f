/-
# Which number a text stands for

`Number.Says text reading` states what a plain text has to be made of to say a number: a sign, which
may be left out, and a word for what is not finite, or digits with at most one point among them and
an exponent. `reading?_eq_some_iff` shows that exactly these texts are read, as what they say, and
`ofText?_eq_some_iff` adds what is dropped before: the blanks around a number and the underscores
between its digits.

The numbers of source text, digits with an optional fraction, are all read, and as the numbers that
they denote.
-/

import Mathlib.Data.List.Chain
import Bol.Proofs.Decimal.Shortest

namespace Bol.Number

open Lexeme (IsDigits IsNumber)

/-! ## What a text says -/

/-- A sign that may be left out, and whether it is a minus sign. -/
inductive IsSign : List Char → Bool → Prop
  | none : IsSign [] false
  | plus : IsSign ['+'] false
  | minus : IsSign ['-'] true

/-- Digits with at most one point among them: which stand before it, and which after it. -/
inductive IsMantissa : (text whole fraction : List Char) → Prop
  | integer {whole} (hwhole : IsDigits whole) : IsMantissa whole whole []
  | point {whole fraction} (hdigits : IsDigits (whole ++ fraction)) :
      IsMantissa (whole ++ '.' :: fraction) whole fraction

/-- An exponent that may be left out. -/
inductive IsPower : List Char → Int → Prop
  | none : IsPower [] 0
  | power {mark sign digits negative} (hmark : mark = 'e' ∨ mark = 'E')
      (hsign : IsSign sign negative) (hdigits : IsDigits digits) :
      IsPower (mark :: (sign ++ digits)) (if negative then -ofDigits digits else ofDigits digits)

/-- A number without a sign. Its digits are those of the whole number that is left if the point is
moved behind all of them. -/
inductive IsDecimal : List Char → Decimal → Prop
  | intro {mantissa whole fraction power exponent} (hmantissa : IsMantissa mantissa whole fraction)
      (hpower : IsPower power exponent) :
      IsDecimal (mantissa ++ power) ⟨ofDigits (whole ++ fraction), exponent - fraction.length⟩

/-- What a plain text says. -/
inductive Says : List Char → Reading → Prop
  | nan {sign negative word} (hsign : IsSign sign negative)
      (hword : word.map Char.toLower = "nan".toList) : Says (sign ++ word) .nan
  | infinite {sign negative word} (hsign : IsSign sign negative)
      (hword : word.map Char.toLower = "inf".toList ∨ word.map Char.toLower = "infinity".toList) :
      Says (sign ++ word) (.infinite negative)
  | decimal {sign negative text magnitude} (hsign : IsSign sign negative)
      (hmagnitude : IsDecimal text magnitude) : Says (sign ++ text) (.decimal negative magnitude)

variable {text sign rest whole fraction mantissa power digits : List Char} {negative : Bool}
  {exponent : Int} {magnitude : Decimal} {reading : Reading}

/-! ## Signs and exponents -/

theorem splitSign_append (hsign : IsSign sign negative)
    (hrest : ∀ c ∈ rest.head?, c ≠ '-' ∧ c ≠ '+') :
    splitSign (sign ++ rest) = (negative, rest) := by
  cases hsign with
  | plus | minus => rfl
  | none =>
      cases rest with
      | nil => rfl
      | cons c rest =>
          obtain ⟨hminus, hplus⟩ := hrest c rfl
          rw [List.nil_append, splitSign]
          · exact fun rest heq => hminus (List.cons.inj heq).1
          · exact fun rest heq => hplus (List.cons.inj heq).1

theorem exists_sign (text : List Char) :
    ∃ sign, IsSign sign (splitSign text).1 ∧ text = sign ++ (splitSign text).2 := by
  unfold splitSign
  split
  · exact ⟨_, .minus, rfl⟩
  · exact ⟨_, .plus, rfl⟩
  · exact ⟨_, .none, rfl⟩

theorem head?_of_isDigits (h : IsDigits digits) : ∀ c ∈ digits.head?, c ≠ '-' ∧ c ≠ '+' := by
  intro c hc
  have hdigit := h.2 c (List.mem_of_mem_head? hc)
  constructor <;> (rintro rfl; revert hdigit; decide)

theorem exponent?_eq_some_iff : exponent? power = some exponent ↔ IsPower power exponent := by
  constructor
  · intro h
    match power with
    | [] =>
        cases h
        exact .none
    | mark :: rest =>
        rw [exponent?] at h
        dsimp only at h
        split at h
        case isFalse => cases h
        next hpower =>
          cases h
          obtain ⟨hmark, hnonempty, hall⟩ := hpower
          obtain ⟨sign, hsign, hrest⟩ := exists_sign rest
          have hdigits : IsDigits (splitSign rest).2 := ⟨hnonempty, List.all_eq_true.mp hall⟩
          have hread := IsPower.power hmark hsign hdigits
          rwa [← hrest] at hread
  · intro h
    cases h with
    | none => rfl
    | power hmark hsign hdigits =>
        rw [exponent?, splitSign_append hsign (head?_of_isDigits hdigits)]
        exact if_pos ⟨hmark, hdigits.1, List.all_eq_true.mpr hdigits.2⟩

/-- No exponent goes on with the digits before it. -/
theorem head?_of_isPower (h : IsPower power exponent) :
    ∀ c ∈ power.head?, c.isDigit = false ∧ c ≠ '.' := by
  cases h with
  | none => nofun
  | power hmark =>
      rintro c ⟨⟩
      rcases hmark with rfl | rfl <;> decide

/-! ## Digits with a point -/

/-- Digits end where no digit follows. -/
theorem cut_digits (hdigits : ∀ c ∈ digits, c.isDigit = true)
    (hrest : ∀ c ∈ rest.head?, c.isDigit = false) :
    (digits ++ rest).takeWhile Char.isDigit = digits ∧
      (digits ++ rest).dropWhile Char.isDigit = rest := by
  rw [List.takeWhile_append_of_pos hdigits, List.dropWhile_append_of_pos hdigits]
  cases rest with
  | nil => simp
  | cons c rest => simp [hrest c rfl]

theorem scaled?_eq_some_iff {after : List Char} :
    scaled? whole fraction after = some magnitude ↔ whole ++ fraction ≠ [] ∧
      ∃ exponent, IsPower after exponent ∧
        magnitude = ⟨ofDigits (whole ++ fraction), exponent - fraction.length⟩ := by
  unfold scaled?
  split
  next hnone => simp [hnone]
  next hsome =>
    simp only [Option.map_eq_some_iff, exponent?_eq_some_iff]
    simp [hsome, eq_comm]

theorem isDecimal_of_decimal? (h : decimal? text = some magnitude) : IsDecimal text magnitude := by
  have hwhole : ∀ c ∈ text.takeWhile Char.isDigit, c.isDigit = true :=
    fun c => List.mem_takeWhile_imp
  have htext := List.takeWhile_append_dropWhile (p := Char.isDigit) (l := text)
  unfold decimal? at h
  dsimp only at h
  split at h
  · rename_i rest hrest
    obtain ⟨hsome, exponent, hpower, rfl⟩ := scaled?_eq_some_iff.mp h
    have hdigits : IsDigits (text.takeWhile Char.isDigit ++ rest.takeWhile Char.isDigit) :=
      ⟨hsome, List.forall_mem_append.mpr ⟨hwhole, fun c => List.mem_takeWhile_imp⟩⟩
    have hdecimal := IsDecimal.intro (.point hdigits) hpower
    rwa [List.append_assoc, List.cons_append, List.takeWhile_append_dropWhile, ← hrest, htext]
      at hdecimal
  · obtain ⟨hsome, exponent, hpower, rfl⟩ := scaled?_eq_some_iff.mp h
    rw [List.append_nil] at hsome
    have hdecimal := IsDecimal.intro (.integer ⟨hsome, hwhole⟩) hpower
    rwa [htext] at hdecimal

theorem decimal?_of_isDecimal (h : IsDecimal text magnitude) : decimal? text = some magnitude := by
  obtain @⟨mantissa, whole, fraction, power, exponent, hmantissa, hpower⟩ := h
  have hafter := head?_of_isPower hpower
  unfold decimal?
  dsimp only
  cases hmantissa with
  | integer hwhole =>
      obtain ⟨htake, hdrop⟩ := cut_digits hwhole.2 fun c hc => (hafter c hc).1
      rw [htake, hdrop]
      split
      · exact absurd rfl (hafter '.' rfl).2
      · exact scaled?_eq_some_iff.mpr ⟨by simpa using hwhole.1, _, hpower, rfl⟩
  | point hdigits =>
      obtain ⟨hwhole, hfraction⟩ := List.forall_mem_append.mp hdigits.2
      have hpoint : ∀ c ∈ ('.' :: (fraction ++ power)).head?, c.isDigit = false := by
        rintro c ⟨⟩
        rfl
      obtain ⟨htake, hdrop⟩ := cut_digits hwhole hpoint
      obtain ⟨htake', hdrop'⟩ := cut_digits hfraction fun c hc => (hafter c hc).1
      rw [List.append_assoc, List.cons_append, htake, hdrop]
      change scaled? whole ((fraction ++ power).takeWhile Char.isDigit)
        ((fraction ++ power).dropWhile Char.isDigit) = _
      rw [htake', hdrop']
      exact scaled?_eq_some_iff.mpr ⟨hdigits.1, _, hpower, rfl⟩

/-! ## Plain texts -/

/-- A number without a sign starts with a digit or a point. -/
theorem exists_head_of_isDecimal (h : IsDecimal text magnitude) :
    ∃ c rest, text = c :: rest ∧ (c.isDigit = true ∨ c = '.') := by
  obtain @⟨mantissa, whole, fraction, power, exponent, hmantissa, hpower⟩ := h
  cases hmantissa with
  | integer hwhole =>
      obtain ⟨c, rest, rfl⟩ := List.exists_cons_of_ne_nil hwhole.1
      exact ⟨c, _, rfl, .inl (hwhole.2 c List.mem_cons_self)⟩
  | point hdigits =>
      cases whole with
      | nil => exact ⟨'.', _, rfl, .inr rfl⟩
      | cons c rest => exact ⟨c, _, rfl, .inl (hdigits.2 c List.mem_cons_self)⟩

theorem toLower_of_isDigit {c : Char} (h : c.isDigit = true) : c.toLower = c := by
  simp only [Char.isDigit, Bool.and_eq_true, decide_eq_true_eq] at h
  refine dif_neg fun hupper => ?_
  have hle : 'A'.val ≤ '9'.val := UInt32.le_trans hupper.1 h.2
  exact absurd hle (by decide)

/-- A number without a sign does not start as a sign or as a word for what is not finite. -/
theorem head?_of_isDecimal (h : IsDecimal text magnitude) :
    ∀ c ∈ text.head?, (c ≠ '-' ∧ c ≠ '+') ∧ c.toLower ≠ 'n' ∧ c.toLower ≠ 'i' := by
  obtain ⟨c, rest, rfl, hc⟩ := exists_head_of_isDecimal h
  rintro c ⟨⟩
  rcases hc with hdigit | rfl
  · rw [toLower_of_isDigit hdigit]
    refine ⟨⟨?_, ?_⟩, ?_, ?_⟩ <;> (rintro rfl; revert hdigit; decide)
  · decide

theorem head?_of_map_toLower {first : Char} {more : List Char}
    (hword : text.map Char.toLower = first :: more) : ∀ c ∈ text.head?, c.toLower = first := by
  obtain ⟨c, rest, rfl, hc, -⟩ := List.map_eq_cons_iff.mp hword
  rintro c ⟨⟩
  exact hc

/-- A word for what is not finite starts with no sign. -/
theorem head?_of_word {first : Char} {more : List Char}
    (hword : text.map Char.toLower = first :: more) (hminus : first ≠ '-') (hplus : first ≠ '+') :
    ∀ c ∈ text.head?, c ≠ '-' ∧ c ≠ '+' := by
  intro c hc
  obtain rfl := head?_of_map_toLower hword c hc
  constructor <;> rintro rfl <;> contradiction

theorem reading?_append (hsign : IsSign sign negative)
    (hrest : ∀ c ∈ rest.head?, c ≠ '-' ∧ c ≠ '+') :
    reading? (sign ++ rest) =
      if rest.map Char.toLower = "nan".toList then some .nan
      else if rest.map Char.toLower = "inf".toList ∨ rest.map Char.toLower = "infinity".toList then
        some (.infinite negative)
      else (decimal? rest).map (.decimal negative) := by
  rw [reading?, splitSign_append hsign hrest]

/-- Exactly the texts that say a number are read, as what they say. -/
theorem reading?_eq_some_iff : reading? text = some reading ↔ Says text reading := by
  constructor
  · intro h
    obtain ⟨sign, hsign, htext⟩ := exists_sign text
    unfold reading? at h
    dsimp only at h
    rw [htext]
    split at h
    next hnan =>
      cases h
      exact .nan hsign hnan
    next =>
      split at h
      next hinfinite =>
        cases h
        exact .infinite hsign hinfinite
      next =>
        obtain ⟨magnitude, hmagnitude, rfl⟩ := Option.map_eq_some_iff.mp h
        exact .decimal hsign (isDecimal_of_decimal? hmagnitude)
  · intro h
    cases h with
    | nan hsign hword =>
        rw [reading?_append hsign (head?_of_word hword (by decide) (by decide)), if_pos hword]
    | infinite hsign hword =>
        have hhead := hword.elim (head?_of_word · (by decide) (by decide))
          (head?_of_word · (by decide) (by decide))
        rw [reading?_append hsign hhead, if_neg, if_pos hword]
        rcases hword with hword | hword <;> rw [hword] <;> decide
    | decimal hsign hmagnitude =>
        have hhead := head?_of_isDecimal hmagnitude
        have hfinite := decimal?_of_isDecimal hmagnitude
        obtain ⟨c, rest, rfl, -⟩ := exists_head_of_isDecimal hmagnitude
        obtain ⟨-, hn, hi⟩ := hhead c rfl
        rw [reading?_append hsign fun c hc => (hhead c hc).1, if_neg, if_neg, hfinite]
        · rfl
        · rintro (hword | hword) <;> exact hi (head?_of_map_toLower hword c rfl)
        · exact fun hword => hn (head?_of_map_toLower hword c rfl)

/-! ## Underscores and blanks -/

/-- Where the two characters stand side by side, neither of them is an underscore beside what is
no digit. -/
def MayTouch (a b : Char) : Prop := (a = '_' → b.isDigit = true) ∧ (b = '_' → a.isDigit = true)

/-- All underscores of the text stand between two digits. -/
def IsGrouped (text : List Char) : Prop := List.IsChain MayTouch (' ' :: (text ++ [' ']))

theorem mayTouch_of_ne {a b : Char} (ha : a ≠ '_') (hb : b ≠ '_') : MayTouch a b :=
  ⟨fun h => absurd h ha, fun h => absurd h hb⟩

theorem ne_underscore_of_isDigit {c : Char} (h : c.isDigit = true) : c ≠ '_' := by
  rintro rfl
  cases h

/-- What is left of a text without its underscores, where the character before it is none. -/
theorem dropUnderscores?_eq_some_iff {inside : Bool} {before : Char} (hbefore : before ≠ '_')
    (hinside : before.isDigit = inside) :
    dropUnderscores? inside text = some rest ↔
      List.IsChain MayTouch (before :: (text ++ [' '])) ∧ text.filter (· != '_') = rest := by
  fun_induction dropUnderscores? inside text generalizing before rest with
  | case1 => simp [mayTouch_of_ne hbefore]
  | case2 => simp [MayTouch]
  | case3 inside c text hdigits ih =>
      obtain ⟨rfl, hc⟩ := Bool.and_eq_true_iff.mp hdigits
      have hne := ne_underscore_of_isDigit hc
      simp [ih hne hc, MayTouch, hbefore, hinside, hc, hne]
  | case4 inside c text hdigits =>
      rw [Bool.and_eq_true, not_and, Bool.not_eq_true] at hdigits
      simp +contextual [MayTouch, hinside, hdigits]
  | case5 inside c text hend hmore ih =>
      have hne : c ≠ '_' := by
        cases text with
        | nil => exact fun h => hend h rfl
        | cons d text => exact fun h => hmore d text h rfl
      simp [ih hne rfl, mayTouch_of_ne hbefore hne, hne]

/-- What the text of a number says: blanks around it and underscores between digits do not count,
and digits and blanks of all scripts are as good as those of ASCII. -/
structure StandsFor (text : String) (reading : Reading) : Prop where
  isGrouped : IsGrouped (stripped text.toList)
  reads : Says ((stripped text.toList).filter (· != '_')) reading

/-- Exactly the texts that stand for a number have one, and it is the one they stand for. -/
theorem ofText?_eq_some_iff {text : String} {x : Float} :
    ofText? text = some x ↔ ∃ reading, StandsFor text reading ∧ reading.value = x := by
  rw [ofText?, Option.map_eq_some_iff]
  refine exists_congr fun reading => and_congr_left fun _ => ?_
  rw [Option.bind_eq_some_iff]
  have hblank : ' ' ≠ '_' := by decide
  constructor
  · rintro ⟨kept, hkept, hreading⟩
    obtain ⟨hgrouped, rfl⟩ := (dropUnderscores?_eq_some_iff hblank rfl).mp hkept
    exact ⟨hgrouped, reading?_eq_some_iff.mp hreading⟩
  · rintro ⟨hgrouped, hreads⟩
    exact ⟨_, (dropUnderscores?_eq_some_iff hblank rfl).mpr ⟨hgrouped, rfl⟩,
      reading?_eq_some_iff.mpr hreads⟩

example : ofText? "1e5" = some (ofDecimal false ⟨1, 5⟩) := rfl

example : ofText? "1.5.2" = none := by decide

/-! ## Numbers of source text -/

theorem stripped_eq_self (hplain : ∀ c ∈ text, plain c = c)
    (hblank : ∀ c ∈ text, isBlank c = false) : stripped text = text := by
  have hkeep {kept : List Char} (h : ∀ c ∈ kept, isBlank c = false) :
      kept.dropWhile isBlank = kept := by
    cases kept with
    | nil => rfl
    | cons c kept => exact List.dropWhile_cons_of_neg (by simp [h c List.mem_cons_self])
  have hmap : text.map plain = text := (List.map_congr_left hplain).trans (List.map_id text)
  rw [stripped, hmap, hkeep hblank, hkeep fun c hc => hblank c (List.mem_reverse.mp hc),
    List.reverse_reverse]

theorem isGrouped_of_notMem (h : '_' ∉ text) : IsGrouped text := by
  have hnone : '_' ∉ ' ' :: (text ++ [' ']) := by simpa using h
  have hpairwise := List.pairwise_of_forall_mem_list fun a ha b hb =>
    mayTouch_of_ne (ne_of_mem_of_not_mem ha hnone) (ne_of_mem_of_not_mem hb hnone)
  exact hpairwise.isChain

theorem IsMantissa.mem (h : IsMantissa text whole fraction) :
    ∀ c ∈ text, c.isDigit = true ∨ c = '.' := by
  intro c hc
  cases h with
  | integer hwhole => exact .inl (hwhole.2 c hc)
  | point hdigits =>
      have hdigit := hdigits.2 c
      simp only [List.mem_append, List.mem_cons] at hc hdigit
      tauto

/-- Digits and the point are plain characters, neither blanks nor underscores. -/
theorem plain_of_mem {c : Char} (h : c.isDigit = true ∨ c = '.') :
    plain c = c ∧ isBlank c = false ∧ c ≠ '_' := by
  rcases h with hdigit | rfl
  · simp only [Char.isDigit, Bool.and_eq_true, decide_eq_true_eq] at hdigit
    obtain ⟨hlow, hhigh⟩ : 48 ≤ c.toNat ∧ c.toNat ≤ 57 := hdigit
    have hne {d : Char} (hd : d.toNat < 48) : c ≠ d := by
      rintro rfl
      omega
    have hunderscore : c ≠ '_' := by
      rintro rfl
      exact absurd hhigh (by decide)
    refine ⟨if_pos (by omega), ?_, hunderscore⟩
    simp only [isBlank, beq_eq_false_iff_ne.mpr (hne (by decide : ' '.toNat < 48)),
      Bool.false_or, Bool.and_eq_false_iff, decide_eq_false_iff_not]
    omega
  · decide

/-- Digits with at most one point among them stand for the number that they are. -/
theorem ofText?_of_isMantissa {text : String} (h : IsMantissa text.toList whole fraction) :
    ofText? text = some (ofDecimal false ⟨ofDigits (whole ++ fraction), -fraction.length⟩) := by
  have hplain := fun c hc => plain_of_mem (h.mem c hc)
  have hstripped : stripped text.toList = text.toList :=
    stripped_eq_self (fun c hc => (hplain c hc).1) fun c hc => (hplain c hc).2.1
  have hkept : text.toList.filter (· != '_') = text.toList :=
    List.filter_eq_self.mpr fun c hc => bne_iff_ne.mpr (hplain c hc).2.2
  have hstands :
      StandsFor text (.decimal false ⟨ofDigits (whole ++ fraction), -fraction.length⟩) := by
    refine ⟨?_, ?_⟩
    · rw [hstripped]
      exact isGrouped_of_notMem fun hc => (hplain '_' hc).2.2 rfl
    · have hreads := Says.decimal .none (.intro h .none)
      rw [List.nil_append, List.append_nil, Int.zero_sub] at hreads
      rwa [hstripped, hkept]
  exact ofText?_eq_some_iff.mpr ⟨_, hstands, rfl⟩

/-- Every number of source text is read, as the decimal number that it denotes. -/
theorem exists_decimal_of_isNumber {text : String} (h : IsNumber text.toList) :
    ∃ magnitude : Decimal, Decimal.positional? text.toList = some magnitude.value ∧
      ofText? text = some (ofDecimal false magnitude) := by
  obtain hdigits | ⟨whole, fraction, htext, hwhole, hfraction⟩ := h
  · refine ⟨_, ?_, ofText?_of_isMantissa (.integer hdigits)⟩
    rw [Decimal.positional?_of_isDigits hdigits, Decimal.value]
    simp
  · have hdigits : IsDigits (whole ++ fraction) :=
      ⟨List.append_ne_nil_of_left_ne_nil hwhole.1 _,
        List.forall_mem_append.mpr ⟨hwhole.2, hfraction.2⟩⟩
    have hmantissa : IsMantissa text.toList whole fraction := by
      rw [htext]
      exact .point hdigits
    refine ⟨_, ?_, ofText?_of_isMantissa hmantissa⟩
    rw [htext, Decimal.positional?_point hwhole hfraction, Decimal.value, zpow_neg, zpow_natCast,
      div_eq_mul_inv]

end Bol.Number
