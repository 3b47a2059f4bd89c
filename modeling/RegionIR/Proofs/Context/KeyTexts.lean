import RegionIR.Context.Basic
import RegionIR.Proofs.Action.Ends
import RegionIR.Proofs.Text.Delimited

/-!
# The texts of keys

A refused insertion reports its key as a text.  The text of an attribute key
holds the payload, which may be any text whatever, in front of the kind; so it
tells the key only because the payload shows where it ends.  Integers and the
bits of floats do so by a bracket, which is no digit, and texts by their closing
quote.  The kind needs no end, since it stands last: its name is a word, or the
mark of a signedness with the width behind it, and no word starts like that.

## Main results

* `TypeKind.text_injective` — the names of kinds.
* `Payload.selfDelimiting_keyText` — a payload can be read off whatever stands behind it.
* `AttributeKey.text_injective`, `BoundKey.text_injective` — the texts of keys.
* `DuplicateKeyError.message_injective` — the messages that hold them.
* `TextsTellKeys`, `textsTellKeys` — all this, and the reports of refused insertions.
-/

namespace RegionIR

open Text

/-! ## Kinds -/

/-- What stands in front of the width of an integer type. -/
def Signedness.mark : Signedness → List Char
  | .signless => ['i']
  | .signed => ['s', 'i']
  | .unsigned => ['u', 'i']

theorem Signedness.selfDelimiting_mark : SelfDelimiting mark := by
  intro a b rest rest' heq
  cases a <;> cases b <;> simp_all [mark]

namespace TypeKind

/-- The kinds whose names are words. -/
def words : List TypeKind :=
  [.index, .nonNumeric, .float .f16, .float .f32, .float .f64, .float .f80, .float .f128,
    .float .bf16]

theorem integer_or_mem_words (k : TypeKind) :
    (∃ width sign, k = .integer width sign) ∨ k ∈ words := by
  cases k with
  | integer width sign => exact .inl ⟨width, sign, rfl⟩
  | index => exact .inr (by decide)
  | float format => cases format <;> exact .inr (by decide)
  | nonNumeric => exact .inr (by decide)

theorem toList_text_integer (width : Nat) (sign : Signedness) :
    (integer width sign).text.toList = sign.mark ++ Nat.toDigits 10 width := by
  cases sign <;> rw [text, String.toList_append, toList_toString_nat] <;> rfl

theorem text_integer_inj {width width' : Nat} {sign sign' : Signedness}
    (h : (integer width sign).text = (integer width' sign').text) :
    integer width sign = integer width' sign' := by
  have heq := congrArg String.toList h
  rw [toList_text_integer, toList_text_integer] at heq
  obtain ⟨rfl, hdigits⟩ := Signedness.selfDelimiting_mark heq
  rw [toDigits_injective (by decide) (by decide) hdigits]

theorem text_inj_of_mem_words : ∀ k ∈ words, ∀ k' ∈ words, k.text = k'.text → k = k' := by
  decide

/-- No word starts like an integer type: `index` goes on with a letter. -/
theorem not_mark_digit_prefix (sign : Signedness) : ∀ k ∈ words, ∀ d < 10,
    ¬ sign.mark ++ [Nat.digitChar d] <+: k.text.toList := by
  cases sign <;> decide +kernel

theorem text_integer_ne_of_mem_words {k : TypeKind} (hk : k ∈ words) (width : Nat)
    (sign : Signedness) : (integer width sign).text ≠ k.text := by
  intro h
  have heq := congrArg String.toList h
  rw [toList_text_integer] at heq
  cases hdigits : Nat.toDigits 10 width with
  | nil => exact Nat.toDigits_ne_nil hdigits
  | cons c rest =>
      have hmem : c ∈ Nat.toDigits 10 width := hdigits ▸ List.mem_cons_self
      obtain ⟨d, hd, rfl⟩ := exists_digit_of_mem_toDigits (by decide) hmem
      refine not_mark_digit_prefix sign k hk d hd ⟨rest, ?_⟩
      rw [← heq, hdigits, List.append_assoc, List.singleton_append]

/-- Kinds have different names. -/
theorem text_injective : Function.Injective text := by
  intro k k' h
  rcases integer_or_mem_words k with ⟨width, sign, rfl⟩ | hk <;>
    rcases integer_or_mem_words k' with ⟨width', sign', rfl⟩ | hk'
  · exact text_integer_inj h
  · exact absurd h (text_integer_ne_of_mem_words hk' width sign)
  · exact absurd h.symm (text_integer_ne_of_mem_words hk width' sign')
  · exact text_inj_of_mem_words k hk k' hk' h

end TypeKind

/-! ## Payloads -/

/-- The first letter of a payload in a key. -/
def Shape.initial : Shape → Char
  | .integer => 'I'
  | .float => 'F'
  | .text => 'S'

theorem Shape.initial_injective : Function.Injective initial := by
  intro a b h
  cases a <;> cases b <;> first | rfl | exact absurd h (by decide)

namespace Payload

theorem selfDelimiting_keyText_int : SelfDelimiting fun v => (int v).keyText.toList := by
  have hbracket : ∀ i : Int, ')' ∉ (toString i).toList :=
    not_mem_toString_int (by decide) (by decide)
  have hvalue : Function.Injective fun v : Word128 => v.toInt := fun _ _ => BitVec.eq_of_toInt_eq
  have h := (SelfDelimiting.ofMark toList_toString_int_injective hbracket).comap hvalue
  simp only [keyText, String.toList_append, List.append_assoc]
  exact h.prepend "Int(".toList

theorem selfDelimiting_keyText_float : SelfDelimiting fun v => (float v).keyText.toList := by
  have hbracket : ∀ n, ')' ∉ Nat.toDigits 10 n := not_mem_toDigits (by decide) (by decide)
  have hvalue : Function.Injective fun v : Binary64 => v.bits.toNat := by
    rintro ⟨bits⟩ ⟨bits'⟩ h
    exact congrArg Binary64.mk (UInt64.toNat_inj.1 h)
  have h := (SelfDelimiting.ofMark (toDigits_injective (by decide) (by decide)) hbracket).comap
    hvalue
  simp only [keyText, String.toList_append, toList_toString_nat, List.append_assoc]
  exact h.prepend "Float(".toList

theorem selfDelimiting_keyText_str : SelfDelimiting fun v => (str v).keyText.toList := by
  simp only [keyText, String.toList_append, List.append_assoc]
  exact (selfDelimiting_quoted.append [')']).prepend "Str(".toList

theorem exists_toList_keyText (p : Payload) :
    ∃ rest, p.keyText.toList = p.shape.initial :: rest := by
  cases p <;> rw [keyText, String.toList_append, String.toList_append] <;> exact ⟨_, rfl⟩

/-- A payload in a key shows its shape first, and where it ends. -/
theorem selfDelimiting_keyText : SelfDelimiting fun p : Payload => p.keyText.toList := by
  intro p q rest rest' heq
  have hshape : p.shape = q.shape := by
    obtain ⟨tail, htail⟩ := exists_toList_keyText p
    obtain ⟨tail', htail'⟩ := exists_toList_keyText q
    simp only [htail, htail', List.cons_append] at heq
    exact Shape.initial_injective (List.cons.inj heq).1
  -- Of two shapes that differ there is nothing left to show.
  cases p <;> cases q <;> try cases hshape
  case int.int v w =>
    obtain ⟨rfl, hrest⟩ := selfDelimiting_keyText_int heq
    exact ⟨rfl, hrest⟩
  case float.float v w =>
    obtain ⟨rfl, hrest⟩ := selfDelimiting_keyText_float heq
    exact ⟨rfl, hrest⟩
  case str.str v w =>
    obtain ⟨rfl, hrest⟩ := selfDelimiting_keyText_str heq
    exact ⟨rfl, hrest⟩

end Payload

/-! ## Keys -/

theorem AttributeKey.toList_text (key : AttributeKey) :
    key.text.toList = key.payload.keyText.toList ++ (" : ".toList ++ key.kind.text.toList) := by
  rw [text, String.toList_append, String.toList_append, List.append_assoc]

/-- Keys of attributes have different texts. -/
theorem AttributeKey.text_injective : Function.Injective text := by
  rintro ⟨kind, payload⟩ ⟨kind', payload'⟩ h
  have heq := congrArg String.toList h
  rw [toList_text, toList_text] at heq
  obtain ⟨rfl, hkind⟩ := Payload.selfDelimiting_keyText heq
  obtain rfl : kind = kind' :=
    TypeKind.text_injective (String.toList_injective (List.append_cancel_left hkind))
  rfl

/-- A text that spells the end of its own quotation, the bracket and a kind stays a text. -/
example : (AttributeKey.mk .nonNumeric (.str "x\") : index")).text =
    "Str(\"x\\\") : index\") : none" := by
  decide +kernel

theorem TypeKind.head_text_ne_initial (k : TypeKind) (shape : Shape) (rest : List Char) :
    k.text.toList ≠ shape.initial :: rest := by
  intro h
  rcases integer_or_mem_words k with ⟨width, sign, rfl⟩ | hk
  · rw [toList_text_integer] at h
    cases sign <;> cases shape <;> exact absurd (List.cons.inj h).1 (by decide)
  · have hwords : ∀ k ∈ words, k.text.toList.head? ≠ some shape.initial := by
      cases shape <;> decide +kernel
    exact hwords k hk (by rw [h, List.head?_cons])

theorem AttributeKey.text_ne_text_kind (key : AttributeKey) (k : TypeKind) : key.text ≠ k.text := by
  intro h
  obtain ⟨rest, hrest⟩ := key.payload.exists_toList_keyText
  have heq := congrArg String.toList h
  rw [toList_text, hrest, List.cons_append] at heq
  exact k.head_text_ne_initial _ _ heq.symm

/-- A key has its text in common with no other key, not even of the other table. -/
theorem BoundKey.text_injective : Function.Injective text := by
  intro key key' h
  cases key <;> cases key'
  case type.type k k' => exact congrArg type (TypeKind.text_injective h)
  case type.attr k key => exact absurd h.symm (key.text_ne_text_kind k)
  case attr.type key k => exact absurd h (key.text_ne_text_kind k)
  case attr.attr key key' => exact congrArg attr (AttributeKey.text_injective h)

/-! ## Reports -/

theorem BoundKey.space_not_mem_table (key : BoundKey) : ' ' ∉ key.table.toList := by
  cases key with
  | type _ => exact (by decide +kernel : ' ' ∉ "type".toList)
  | attr _ => exact (by decide +kernel : ' ' ∉ "attribute".toList)

theorem BoundKey.eq_of_append {key key' : BoundKey} {opening closing : List Char}
    (h : opening ++ (key.text.toList ++ closing) = opening ++ (key'.text.toList ++ closing)) :
    key = key' :=
  text_injective (String.toList_injective (List.append_cancel_right (List.append_cancel_left h)))

namespace DuplicateKeyError

/-- The key that the message names. -/
def key : DuplicateKeyError → BoundKey
  | .sameValue key => key
  | .differentValue key => key

/-- What a message says between the space behind the table and the key. -/
def opening : DuplicateKeyError → List Char
  | .sameValue _ => "\x60".toList
  | .differentValue _ => "key \x60".toList

/-- What a message says behind the key. -/
def closing : DuplicateKeyError → List Char
  | .sameValue _ => "\x60 already exists in the context with the same value".toList
  | .differentValue _ => "\x60 already exists in the context with a different value".toList

theorem toList_message (e : DuplicateKeyError) : e.message.toList =
    e.key.table.toList ++ ' ' :: (e.opening ++ (e.key.text.toList ++ e.closing)) := by
  cases e with
  | sameValue key =>
      simp only [message, String.toList_append, toString, List.append_assoc]
      rfl
  | differentValue key =>
      simp only [message, String.toList_append, toString, List.append_assoc]
      rfl

/-- A message tells its table, its key and whether the two values were the same. -/
theorem message_injective : Function.Injective message := by
  intro e e' h
  have heq := congrArg String.toList h
  rw [toList_message, toList_message] at heq
  obtain ⟨-, hrest⟩ := append_cons_inj e.key.space_not_mem_table e'.key.space_not_mem_table heq
  cases e <;> cases e'
  case sameValue.sameValue key key' => exact congrArg sameValue (BoundKey.eq_of_append hrest)
  case sameValue.differentValue key key' => exact absurd (List.cons.inj hrest).1 (by decide)
  case differentValue.sameValue key key' => exact absurd (List.cons.inj hrest).1 (by decide)
  case differentValue.differentValue key key' =>
    exact congrArg differentValue (BoundKey.eq_of_append hrest)

end DuplicateKeyError

/-- A table refuses an entry by a report on the key that was given. -/
theorem Pool.key_eq_of_add {κ β : Type} [DecidableEq κ] {p : Pool κ β} {equal : β → β → Bool}
    {name : κ → BoundKey} {k : κ} {x : β} {e : DuplicateKeyError}
    (h : p.add equal name k x = .error e) : e.key = name k := by
  unfold Pool.add at h
  split at h
  · cases h
    split <;> rfl
  · cases h

namespace Context

/-- An insertion under the key has been refused with the error. -/
inductive Reported : BoundKey → DuplicateKeyError → Prop where
  | type {k t e} {c c' : Context} (h : (addType k t).run c = .refused e c') : Reported (.type k) e
  | attr {key a e} {c c' : Context} (h : (addAttribute key a).run c = .refused e c') :
      Reported (.attr key) e

theorem ends_addType_key (k : TypeKind) (t : Ty) (c : Context) :
    ((addType k t).run c).Ends (fun _ _ => True) fun e _ => e.key = .type k := by
  rw [addType, Action.ends_bind, Action.ends_get]
  cases hadd : c.types.add Ty.equal .type k t with
  | error e => exact Pool.key_eq_of_add hadd
  | ok pool => trivial

theorem ends_addAttribute_key (key : AttributeKey) (a : Attribute) (c : Context) :
    ((addAttribute key a).run c).Ends (fun _ _ => True) fun e _ => e.key = .attr key := by
  rw [addAttribute, Action.ends_bind, Action.ends_get]
  cases hadd : c.attributes.add Attribute.equal .attr key a with
  | error e => exact Pool.key_eq_of_add hadd
  | ok pool => trivial

theorem Reported.key_eq {key : BoundKey} {e : DuplicateKeyError} (h : Reported key e) :
    e.key = key := by
  cases h with
  | @type k t e c c' h =>
      have hends := ends_addType_key k t c
      rw [h] at hends
      exact hends
  | @attr key a e c c' h =>
      have hends := ends_addAttribute_key key a c
      rw [h] at hends
      exact hends

end Context

/-- What can be told from the texts of keys. -/
structure TextsTellKeys : Prop where
  kinds : Function.Injective TypeKind.text
  attributes : Function.Injective AttributeKey.text
  /-- No type is written like an attribute either. -/
  keys : Function.Injective BoundKey.text
  /-- Nothing that a payload holds is taken for what stands behind it. -/
  payloads : SelfDelimiting fun p : Payload => p.keyText.toList
  /-- Insertions that are refused with the same message were made under the same key. -/
  reports : ∀ {key key' : BoundKey} {e e' : DuplicateKeyError}, Context.Reported key e →
    Context.Reported key' e' → e.message = e'.message → key = key'

/-- Texts of keys are unambiguous. -/
theorem textsTellKeys : TextsTellKeys where
  kinds := TypeKind.text_injective
  attributes := AttributeKey.text_injective
  keys := BoundKey.text_injective
  payloads := Payload.selfDelimiting_keyText
  reports h h' hmessage := by
    obtain rfl := DuplicateKeyError.message_injective hmessage
    exact h.key_eq.symm.trans h'.key_eq

end RegionIR
