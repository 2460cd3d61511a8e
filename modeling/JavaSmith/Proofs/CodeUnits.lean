import JavaSmith.Value

/-! Texts in UTF-16. A character is one code unit, or a pair of surrogates, which no character is. So
the units of a text tell its characters apart. -/
namespace JavaSmith

def unit (c : Char) : UInt16 := UInt16.ofNat c.toNat

/-- Code units of a character. The pair holds what its number has beyond 16 bits, ten bits in each. -/
def codeUnits (c : Char) : List UInt16 :=
  if c.toNat < 0x10000 then [unit c]
  else [UInt16.ofNat (0xd800 + (c.toNat - 0x10000) / 0x400), UInt16.ofNat (0xdc00 + c.toNat % 0x400)]

variable {c d : Char}

theorem toNat_char (c : Char) : c.toNat < 0xd800 ∨ 0xdfff < c.toNat ∧ c.toNat < 0x110000 := c.valid

theorem toNat_unit (h : c.toNat < 0x10000) : (unit c).toNat = c.toNat :=
  UInt16.toNat_ofNat_of_lt' h

theorem codeUnits_of_lt (h : c.toNat < 0x10000) : codeUnits c = [unit c] := if_pos h

theorem unit_inj (h : c.toNat < 0x10000) (h' : d.toNat < 0x10000) (same : unit c = unit d) : c = d := by
  have numbers := congrArg UInt16.toNat same
  rw [toNat_unit h, toNat_unit h'] at numbers
  exact Char.toNat_inj.1 numbers

/-- The first unit of a character is its number or the high surrogate of its pair, and the rest is
nothing or the low surrogate. -/
theorem codeUnits_cases (c : Char) :
    (c.toNat < 0x10000 ∧ codeUnits c = [unit c]) ∨
    ∃ high low : UInt16, codeUnits c = [high, low] ∧ 0x10000 ≤ c.toNat ∧
      high.toNat = 0xd800 + (c.toNat - 0x10000) / 0x400 ∧ low.toNat = 0xdc00 + c.toNat % 0x400 := by
  by_cases short : c.toNat < 0x10000
  · exact .inl ⟨short, codeUnits_of_lt short⟩
  · have := toNat_char c
    refine .inr ⟨_, _, if_neg short, by omega, ?_, ?_⟩
    · exact UInt16.toNat_ofNat_of_lt' (by change _ < 65536; omega)
    · exact UInt16.toNat_ofNat_of_lt' (by change _ < 65536; omega)

theorem codeUnits_append_inj {s s' : List UInt16} (same : codeUnits c ++ s = codeUnits d ++ s') :
    c = d ∧ s = s' := by
  -- A first unit is a surrogate exactly if it is one of a pair, so both characters have as many.
  have := toNat_char c
  have := toNat_char d
  rcases codeUnits_cases c with ⟨short, units⟩ | ⟨high, low, units, long, first, second⟩
  · rcases codeUnits_cases d with ⟨short', units'⟩ | ⟨high', low', units', long', first', second'⟩
    · rw [units, units'] at same
      obtain ⟨one, rest⟩ := List.cons.inj same
      exact ⟨unit_inj short short' one, rest⟩
    · rw [units, units'] at same
      have one := congrArg UInt16.toNat (List.cons.inj same).1
      rw [toNat_unit short] at one
      omega
  · rcases codeUnits_cases d with ⟨short', units'⟩ | ⟨high', low', units', long', first', second'⟩
    · rw [units, units'] at same
      have one := congrArg UInt16.toNat (List.cons.inj same).1
      rw [toNat_unit short'] at one
      omega
    · rw [units, units'] at same
      obtain ⟨one, more⟩ := List.cons.inj same
      obtain ⟨two, rest⟩ := List.cons.inj more
      have := congrArg UInt16.toNat one
      have := congrArg UInt16.toNat two
      exact ⟨Char.toNat_inj.1 (by omega), rest⟩

theorem flatMap_codeUnits_injective : Function.Injective (List.flatMap codeUnits) := by
  intro s
  induction s with
  | nil =>
    rintro (_ | ⟨d, s'⟩) same
    · rfl
    · rcases codeUnits_cases d with ⟨_, units⟩ | ⟨_, _, units, _⟩ <;> simp [units] at same
  | cons c s ih =>
    rintro (_ | ⟨d, s'⟩) same
    · rcases codeUnits_cases c with ⟨_, units⟩ | ⟨_, _, units, _⟩ <;> simp [units] at same
    · rw [List.flatMap_cons, List.flatMap_cons] at same
      obtain ⟨rfl, rest⟩ := codeUnits_append_inj same
      rw [ih rest]

theorem eq_of_unit_mem (h : d.toNat < 0xd800) (member : unit d ∈ codeUnits c) : c = d := by
  have own : (unit d).toNat = d.toNat := toNat_unit (by omega)
  rcases codeUnits_cases c with ⟨short, units⟩ | ⟨high, low, units, _, first, second⟩
  · rw [units, List.mem_singleton] at member
    exact unit_inj short (by omega) member.symm
  · rw [units] at member
    simp only [List.mem_cons, List.not_mem_nil, or_false] at member
    rcases member with rfl | rfl <;> omega

end JavaSmith
