import RegionIR.Text.Quoted

/-!
# Texts that show where they end

Something that is written into the middle of a text can be read back if its
writing shows where it ends: whatever stands behind it, no other writing is the
start of the same text.  Two ways lead there.  A mark closes the writing and does
not occur in it, as with numbers in brackets; or the writing is a row of parts,
each of which shows its own end and none of which starts with the mark.

Quoted text is such a row.  A character stands for itself, or a backslash and a
letter stand for it, or a backslash and a code point in braces.  The quote and
the backslash never stand for themselves, so neither a payload full of quotes
nor one that looks like quoted text can end its own quotation.

## Main results

* `SelfDelimiting.ofMark`, `SelfDelimiting.row` — the two ways.
* `toDigits_injective` — numbers in any base up to sixteen.
* `Spelling`, `spelling_escaped` — the three forms of a quoted character.
* `selfDelimiting_quoted` — quoted texts.
-/

namespace RegionIR.Text

variable {α β : Type}

/-! ## Writings and what stands behind them -/

/-- From a text that starts with a writing one can tell what was written, and what follows. -/
def SelfDelimiting (write : α → List Char) : Prop :=
  ∀ ⦃a b : α⦄ ⦃rest rest' : List Char⦄, write a ++ rest = write b ++ rest' →
    a = b ∧ rest = rest'

/-- The first mark ends the part before it. -/
theorem append_cons_inj {l l' rest rest' : List Char} {mark : Char} (hl : mark ∉ l)
    (hl' : mark ∉ l') (h : l ++ mark :: rest = l' ++ mark :: rest') : l = l' ∧ rest = rest' := by
  induction l generalizing l' with
  | nil =>
      cases l' with
      | nil => exact ⟨rfl, (List.cons.inj h).2⟩
      | cons c l' =>
          have hc : mark = c := (List.cons.inj h).1
          exact absurd (hc ▸ List.mem_cons_self) hl'
  | cons c l ih =>
      cases l' with
      | nil =>
          have hc : c = mark := (List.cons.inj h).1
          exact absurd (hc ▸ List.mem_cons_self) hl
      | cons c' l' =>
          obtain ⟨rfl, htail⟩ := List.cons.inj h
          obtain ⟨rfl, hrest⟩ := ih (fun hmem => hl (List.mem_cons_of_mem _ hmem))
            (fun hmem => hl' (List.mem_cons_of_mem _ hmem)) htail
          exact ⟨rfl, hrest⟩

namespace SelfDelimiting

variable {write : α → List Char}

theorem prepend (h : SelfDelimiting write) (opening : List Char) :
    SelfDelimiting fun a => opening ++ write a := by
  intro a b rest rest' heq
  simp only [List.append_assoc, List.append_cancel_left_eq] at heq
  exact h heq

theorem append (h : SelfDelimiting write) (closing : List Char) :
    SelfDelimiting fun a => write a ++ closing := by
  intro a b rest rest' heq
  simp only [List.append_assoc] at heq
  obtain ⟨rfl, hrest⟩ := h heq
  exact ⟨rfl, List.append_cancel_left hrest⟩

/-- Something that can be told from what is written for it can be read back. -/
theorem comap (h : SelfDelimiting write) {f : β → α} (hf : Function.Injective f) :
    SelfDelimiting fun b => write (f b) := by
  intro a b rest rest' heq
  obtain ⟨hab, hrest⟩ := h heq
  exact ⟨hf hab, hrest⟩

/-- A closing mark that does not occur in the writing shows its end. -/
theorem ofMark (hinj : Function.Injective write) {mark : Char} (hmark : ∀ a, mark ∉ write a) :
    SelfDelimiting fun a => write a ++ [mark] := by
  intro a b rest rest' heq
  simp only [List.append_assoc, List.singleton_append] at heq
  obtain ⟨hwrite, hrest⟩ := append_cons_inj (hmark a) (hmark b) heq
  exact ⟨hinj hwrite, hrest⟩

/-- A row of parts ends where the mark stands in the place of a part. -/
theorem row (h : SelfDelimiting write) {mark : Char}
    (hmark : ∀ a rest tail, write a ++ rest ≠ mark :: tail) :
    SelfDelimiting fun l : List α => l.flatMap write ++ [mark] := by
  intro l l' rest rest' heq
  simp only [List.append_assoc, List.singleton_append] at heq
  induction l generalizing l' with
  | nil =>
      cases l' with
      | nil => exact ⟨rfl, (List.cons.inj heq).2⟩
      | cons b l' =>
          rw [List.flatMap_cons, List.append_assoc] at heq
          exact absurd heq.symm (hmark b _ _)
  | cons a l ih =>
      cases l' with
      | nil =>
          rw [List.flatMap_cons, List.append_assoc] at heq
          exact absurd heq (hmark a _ _)
      | cons b l' =>
          rw [List.flatMap_cons, List.flatMap_cons, List.append_assoc, List.append_assoc] at heq
          obtain ⟨rfl, htail⟩ := h heq
          obtain ⟨rfl, hrest⟩ := ih htail
          exact ⟨rfl, hrest⟩

end SelfDelimiting

/-! ## Numbers -/

theorem digitChar_inj : ∀ {d}, d < 16 → ∀ {e}, e < 16 → Nat.digitChar d = Nat.digitChar e →
    d = e := by
  decide

variable {base : Nat}

/-- The last digit, and the digits of the quotient unless there are none. -/
theorem toDigits_eq_append (hbase : 1 < base) (n : Nat) :
    Nat.toDigits base n =
      (if n < base then [] else Nat.toDigits base (n / base)) ++ [Nat.digitChar (n % base)] := by
  rw [Nat.toDigits_eq_if hbase]
  split
  · rename_i hlt
    rw [Nat.mod_eq_of_lt hlt, List.nil_append]
  · rfl

/-- The digits of a number are those of no other one. -/
theorem toDigits_injective (hbase : 1 < base) (hle : base ≤ 16) :
    Function.Injective (Nat.toDigits base) := by
  have hmod : ∀ k, k % base < 16 := fun k =>
    Nat.lt_of_lt_of_le (Nat.mod_lt k (Nat.lt_trans Nat.zero_lt_one hbase)) hle
  intro n
  induction n using Nat.strongRecOn with
  | ind n ih =>
      intro m h
      rw [toDigits_eq_append hbase n, toDigits_eq_append hbase m] at h
      obtain ⟨hfront, hlast⟩ := List.append_inj' h rfl
      have hdigit : n % base = m % base :=
        digitChar_inj (hmod n) (hmod m) (List.cons.inj hlast).1
      have hquotient : n / base = m / base := by
        by_cases hn : n < base <;> by_cases hm : m < base
        · rw [Nat.div_eq_of_lt hn, Nat.div_eq_of_lt hm]
        · rw [if_pos hn, if_neg hm] at hfront
          exact absurd hfront.symm Nat.toDigits_ne_nil
        · rw [if_neg hn, if_pos hm] at hfront
          exact absurd hfront Nat.toDigits_ne_nil
        · rw [if_neg hn, if_neg hm] at hfront
          exact ih _ (Nat.div_lt_self (by omega) hbase) hfront
      calc n = base * (n / base) + n % base := (Nat.div_add_mod n base).symm
        _ = base * (m / base) + m % base := by rw [hquotient, hdigit]
        _ = m := Nat.div_add_mod m base

theorem exists_digit_of_mem_toDigits (hbase : 1 < base) {n : Nat} {c : Char}
    (h : c ∈ Nat.toDigits base n) : ∃ d < base, c = Nat.digitChar d := by
  induction n using Nat.strongRecOn with
  | ind n ih =>
      rw [toDigits_eq_append hbase, List.mem_append, List.mem_singleton] at h
      rcases h with h | h
      · by_cases hn : n < base
        · rw [if_pos hn] at h
          cases h
        · rw [if_neg hn] at h
          exact ih _ (Nat.div_lt_self (by omega) hbase) h
      · exact ⟨n % base, Nat.mod_lt n (Nat.lt_trans Nat.zero_lt_one hbase), h⟩

/-- A mark that is no digit does not occur in a number. -/
theorem not_mem_toDigits (hbase : 1 < base) {mark : Char}
    (hmark : ∀ d < base, mark ≠ Nat.digitChar d) (n : Nat) : mark ∉ Nat.toDigits base n := by
  intro hmem
  obtain ⟨d, hd, heq⟩ := exists_digit_of_mem_toDigits hbase hmem
  exact hmark d hd heq

theorem toList_toString_nat (n : Nat) : (toString n).toList = Nat.toDigits 10 n := by
  rw [Nat.toString_eq_ofList_toDigits, String.toList_ofList]

/-- Naturals are written in digits, the others with a sign in front of digits. -/
theorem toList_toString_int (i : Int) :
    (toString i).toList = if i < 0 then '-' :: Nat.toDigits 10 i.natAbs
      else Nat.toDigits 10 i.natAbs := by
  cases i with
  | ofNat n => exact toList_toString_nat n
  | negSucc n =>
      show ("-" ++ Nat.repr (n + 1)).toList = _
      rw [String.toList_append, Nat.repr_eq_ofList_toDigits,
        String.toList_ofList (l := Nat.toDigits _ _), if_pos (Int.negSucc_lt_zero n)]
      rfl

theorem toList_toString_int_injective : Function.Injective fun i : Int => (toString i).toList := by
  intro i j h
  simp only [toList_toString_int] at h
  have hminus : ∀ n, '-' ∉ Nat.toDigits 10 n := not_mem_toDigits (by decide) (by decide)
  have hdigits : Function.Injective (Nat.toDigits 10) := toDigits_injective (by decide) (by decide)
  by_cases hi : i < 0 <;> by_cases hj : j < 0
  · rw [if_pos hi, if_pos hj] at h
    have := hdigits (List.cons.inj h).2
    omega
  · rw [if_pos hi, if_neg hj] at h
    exact absurd (h ▸ List.mem_cons_self) (hminus _)
  · rw [if_neg hi, if_pos hj] at h
    exact absurd (h ▸ List.mem_cons_self) (hminus _)
  · rw [if_neg hi, if_neg hj] at h
    have := hdigits h
    omega

/-- A mark that is neither a digit nor the sign does not occur in an integer. -/
theorem not_mem_toString_int {mark : Char} (hdigit : ∀ d < 10, mark ≠ Nat.digitChar d)
    (hsign : mark ≠ '-') (i : Int) : mark ∉ (toString i).toList := by
  have hdigits : mark ∉ Nat.toDigits 10 i.natAbs := not_mem_toDigits (by decide) hdigit _
  rw [toList_toString_int]
  split
  · simp [hsign, hdigits]
  · exact hdigits

/-! ## Quoted characters -/

/-- The characters that a letter behind a backslash stands for. -/
def letters : List (Char × Char) :=
  [('\x00', '0'), ('\t', 't'), ('\r', 'r'), ('\n', 'n'), ('\x22', '\x22'), ('\x5c', '\x5c')]

/-- The forms of a character between quotes. -/
inductive Spelling (c : Char) : List Char → Prop where
  | letter {m : Char} (h : (c, m) ∈ letters) : Spelling c ['\x5c', m]
  | codePoint : Spelling c ('\x5c' :: 'u' :: '\x7b' :: (Nat.toDigits 16 c.toNat ++ ['\x7d']))
  | plain (hquote : c ≠ '\x22') (hbackslash : c ≠ '\x5c') : Spelling c [c]

theorem toList_escaped_of_letter : ∀ p ∈ letters, (escaped p.1).toList = ['\x5c', p.2] := by
  decide +kernel

theorem spelling_escaped (c : Char) : Spelling c (escaped c).toList := by
  by_cases h : ∃ m, (c, m) ∈ letters
  · obtain ⟨m, hm⟩ := h
    rw [toList_escaped_of_letter (c, m) hm]
    exact .letter hm
  · have hne : ∀ p ∈ letters, c ≠ p.1 := fun p hp heq => h ⟨p.2, heq ▸ hp⟩
    have hquote := hne ('\x22', '\x22') (by decide)
    have hbackslash := hne ('\x5c', '\x5c') (by decide)
    rw [escaped, if_neg (hne ('\x00', '0') (by decide)), if_neg (hne ('\t', 't') (by decide)),
      if_neg (hne ('\r', 'r') (by decide)), if_neg (hne ('\n', 'n') (by decide)),
      if_neg hquote, if_neg hbackslash]
    split
    · rw [hexadecimal, String.toList_append, String.toList_append,
        String.toList_ofList (l := Nat.toDigits _ _)]
      exact .codePoint
    · rw [String.toList_singleton]
      exact .plain hquote hbackslash

/-- No letter stands for two characters, and none is that of a code point. -/
theorem letters_inj : ∀ p ∈ letters, p.2 ≠ 'u' ∧ ∀ q ∈ letters, p.2 = q.2 → p.1 = q.1 := by
  decide

/-- A form does not start like a form of another character. -/
theorem Spelling.inj {c d : Char} {l l' rest rest' : List Char} (h : Spelling c l)
    (h' : Spelling d l') (heq : l ++ rest = l' ++ rest') : c = d ∧ rest = rest' := by
  cases h with
  | letter hm =>
      cases h' with
      | letter hm' =>
          obtain ⟨-, heq⟩ := List.cons.inj heq
          obtain ⟨heq, hrest⟩ := List.cons.inj heq
          exact ⟨(letters_inj _ hm).2 _ hm' heq, hrest⟩
      | codePoint =>
          obtain ⟨-, heq⟩ := List.cons.inj heq
          exact absurd (List.cons.inj heq).1 (letters_inj _ hm).1
      | plain _ hbackslash => exact absurd (List.cons.inj heq).1.symm hbackslash
  | codePoint =>
      cases h' with
      | letter hm =>
          obtain ⟨-, heq⟩ := List.cons.inj heq
          exact absurd (List.cons.inj heq).1.symm (letters_inj _ hm).1
      | codePoint =>
          have hclose : ∀ n, '\x7d' ∉ Nat.toDigits 16 n := not_mem_toDigits (by decide) (by decide)
          have hinj : Function.Injective (Nat.toDigits 16) :=
            toDigits_injective (by decide) (by decide)
          have hnumber := SelfDelimiting.ofMark hinj hclose
          simp only [List.cons_append, List.cons.injEq, true_and] at heq
          obtain ⟨hcode, hrest⟩ := hnumber heq
          exact ⟨Char.toNat_inj.1 hcode, hrest⟩
      | plain _ hbackslash => exact absurd (List.cons.inj heq).1.symm hbackslash
  | plain _ hbackslash =>
      cases h' with
      | letter _ => exact absurd (List.cons.inj heq).1 hbackslash
      | codePoint => exact absurd (List.cons.inj heq).1 hbackslash
      | plain _ _ => exact List.cons.inj heq

theorem Spelling.ne_quote {c : Char} {l : List Char} (h : Spelling c l) (rest tail : List Char) :
    l ++ rest ≠ '\x22' :: tail := by
  intro heq
  cases h with
  | letter _ => exact absurd (List.cons.inj heq).1 (by decide)
  | codePoint => exact absurd (List.cons.inj heq).1 (by decide)
  | plain hquote _ => exact hquote (List.cons.inj heq).1

/-! ## Quoted texts -/

theorem toList_quoted (s : String) : (quoted s).toList =
    ['\x22'] ++ (s.toList.flatMap (fun c => (escaped c).toList) ++ ['\x22']) := by
  rw [quoted, String.toList_append, String.toList_append, String.toList_join, List.flatMap_map,
    List.append_assoc]
  rfl

/-- A quoted text can be read back, whatever stands in it and behind it. -/
theorem selfDelimiting_quoted : SelfDelimiting fun s : String => (quoted s).toList := by
  have hescaped : SelfDelimiting fun c => (escaped c).toList := fun _ _ _ _ heq =>
    (spelling_escaped _).inj (spelling_escaped _) heq
  have hrow := hescaped.row fun c => (spelling_escaped c).ne_quote
  simp only [toList_quoted]
  exact (hrow.comap fun _ _ => String.toList_injective).prepend _

end RegionIR.Text
