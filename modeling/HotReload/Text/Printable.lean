namespace HotReload

def Printable (cs : List Char) : Prop := ∀ c ∈ cs, 0x20 ≤ c.toNat

instance (cs : List Char) : Decidable (Printable cs) :=
  List.decidableBAll (fun c : Char => 0x20 ≤ c.toNat) cs

@[simp]
theorem printable_nil : Printable [] := fun c member => by cases member

@[simp]
theorem printable_cons {c : Char} {cs : List Char} :
    Printable (c :: cs) ↔ 0x20 ≤ c.toNat ∧ Printable cs := by
  simp only [Printable, List.mem_cons, forall_eq_or_imp]

@[simp]
theorem printable_append {as bs : List Char} :
    Printable (as ++ bs) ↔ Printable as ∧ Printable bs := by
  simp only [Printable, List.mem_append, or_imp, forall_and]

theorem Printable.not_mem_newline {cs : List Char} (printable : Printable cs) : '\n' ∉ cs :=
  fun member => absurd (printable '\n' member) (by decide)

theorem printable_of_digits {cs : List Char} (digits : ∀ c ∈ cs, c.isDigit = true) :
    Printable cs := by
  intro c member
  have digit := digits c member
  simp only [Char.isDigit, Bool.and_eq_true, decide_eq_true_eq] at digit
  have low : (48 : UInt32).toNat ≤ c.val.toNat := UInt32.le_iff_toNat_le.mp digit.1
  exact Nat.le_trans (by decide) low

theorem digits_toString (n : Nat) : ∀ c ∈ (toString n).toList, c.isDigit = true := by
  intro c member
  rw [Nat.toString_eq_repr, Nat.toList_repr] at member
  exact Nat.isDigit_of_mem_toDigits (by decide) (by decide) member

theorem printable_digits (n : Nat) : Printable (toString n).toList :=
  printable_of_digits (digits_toString n)

@[simp]
theorem toString_text (text : String) : toString text = text := rfl

end HotReload
