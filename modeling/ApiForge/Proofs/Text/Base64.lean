import ApiForge.Proofs.Text.Utf8
import ApiForge.Text.Base64
import Mathlib.Data.Option.Basic
/-!
The base 64 form of octets is read back, and nothing else is read.

A character of the alphabet stands for its place there (`value?_eq_some_iff`), so
both directions are arithmetic on one group of four characters, whose value is
either written out or taken apart in radix 64. The padding decides which group is
meant: a group that ends in it is the last (`decodeLast?_eq_some_iff`), and one
that does not is full (`decodeFour?_eq_some_iff`). Together they say that reading
is strict (`decode?_eq_some_iff`): there is one written form, the padding must be
there, and the bits that it cuts off are zero.
-/

namespace ApiForge.Text.Base64

-- ============================================================ alphabet

/-- A character stands for a value just when it is the symbol of this value. -/
theorem value?_eq_some_iff {c : Char} {n : Nat} :
    value? c = some n ↔ n < 64 ∧ c = symbol n := by
  have hall : ∀ n : Fin 64, value? (symbol n) = some n.val := by
    decide +kernel
  constructor
  · intro h
    obtain ⟨hn, hc, -⟩ := List.idxOf?_eq_some_iff.1 h
    refine ⟨hn, ?_⟩
    unfold symbol
    rw [List.getD_eq_getElem?_getD, List.getElem?_eq_getElem hn, hc]
    rfl
  · rintro ⟨hn, rfl⟩
    exact hall ⟨n, hn⟩

theorem value?_pad : value? '=' = none := by decide

/-- No value is written as padding. -/
theorem symbol_ne_pad {n : Nat} (h : n < 64) : symbol n ≠ '=' := by
  intro heq
  have hvalue := value?_eq_some_iff.2 ⟨h, rfl⟩
  rw [heq, value?_pad] at hvalue
  cases hvalue

-- ============================================================== groups

/-- A full group is what three octets are written as. -/
theorem decodeFour?_eq_some_iff {a b c d : Char} {octets : List UInt8} :
    decodeFour? a b c d = some octets
      ↔ ∃ x y z, octets = [x, y, z] ∧ [a, b, c, d] = encode [x, y, z] := by
  simp only [decodeFour?, Option.bind_eq_bind, Option.bind_eq_some_iff,
    Option.pure_def, Option.some.injEq, value?_eq_some_iff]
  constructor
  · rintro ⟨p, ⟨hp, rfl⟩, q, ⟨hq, rfl⟩, s, ⟨hs, rfl⟩, t, ⟨ht, rfl⟩, rfl⟩
    -- four groups of six bits make three of eight, and back
    refine ⟨_, _, _, rfl, ?_⟩
    simp only [encode]
    rw [Utf8.toNat_ofNat (by omega), Utf8.toNat_ofNat (by omega),
      Utf8.toNat_ofNat (by omega)]
    congr <;> omega
  · rintro ⟨x, y, z, rfl, h⟩
    have hx := x.toNat_lt
    have hy := y.toNat_lt
    have hz := z.toNat_lt
    simp only [encode, List.cons.injEq, and_true] at h
    obtain ⟨ha, hb, hc, hd⟩ := h
    refine ⟨_, ⟨?_, ha⟩, _, ⟨?_, hb⟩, _, ⟨?_, hc⟩, _, ⟨?_, hd⟩, ?_⟩
    · omega
    · omega
    · omega
    · omega
    · simp only [List.cons.injEq, and_true]
      refine ⟨?_, ?_, ?_⟩
      all_goals
        apply UInt8.toNat_inj.1
        rw [Utf8.toNat_ofNat (by omega)]
        omega

/-- A padded group is what one octet is written as, or two. -/
theorem decodeLast?_eq_some_iff {a b c d : Char} {octets : List UInt8} :
    decodeLast? a b c d = some octets
      ↔ (∃ x, octets = [x] ∧ [a, b, c, d] = encode [x])
        ∨ ∃ x y, octets = [x, y] ∧ [a, b, c, d] = encode [x, y] := by
  unfold decodeLast?
  -- two paddings leave one octet, one leaves two
  by_cases hpad : c = '=' ∧ d = '='
  · obtain ⟨rfl, rfl⟩ := hpad
    simp only [Option.bind_eq_bind, Option.bind_eq_some_iff, beq_self_eq_true,
      Bool.and_self, if_true, Option.guard_eq_some', Option.pure_def,
      Option.some.injEq, value?_eq_some_iff]
    constructor
    · rintro ⟨p, ⟨hp, rfl⟩, q, ⟨hq, rfl⟩, -, hzero, rfl⟩
      refine .inl ⟨_, rfl, ?_⟩
      simp only [encode]
      rw [Utf8.toNat_ofNat (by omega)]
      congr <;> omega
    · rintro (⟨x, rfl, h⟩ | ⟨x, y, rfl, h⟩)
      · have hx := x.toNat_lt
        simp only [encode, List.cons.injEq, and_true] at h
        obtain ⟨ha, hb⟩ := h
        refine ⟨_, ⟨by omega, ha⟩, _, ⟨by omega, hb⟩, (), by omega, ?_⟩
        simp only [List.cons.injEq, and_true]
        apply UInt8.toNat_inj.1
        rw [Utf8.toNat_ofNat (by omega)]
        omega
      · simp only [encode, List.cons.injEq, and_true] at h
        exact absurd h.2.2.symm (symbol_ne_pad (by omega))
  · have hcond : (c == '=' && d == '=') = false := by simpa using hpad
    rw [hcond]
    simp only [Option.bind_eq_bind, Option.bind_eq_some_iff, Bool.false_eq_true,
      if_false, Option.guard_eq_some', Option.pure_def, beq_iff_eq,
      Bool.and_eq_true, decide_eq_true_eq, Option.some.injEq, value?_eq_some_iff]
    constructor
    · rintro ⟨p, ⟨hp, rfl⟩, q, ⟨hq, rfl⟩, s, ⟨hs, rfl⟩, -, ⟨rfl, hzero⟩, rfl⟩
      refine .inr ⟨_, _, rfl, ?_⟩
      simp only [encode]
      rw [Utf8.toNat_ofNat (by omega), Utf8.toNat_ofNat (by omega)]
      congr <;> omega
    · rintro (⟨x, rfl, h⟩ | ⟨x, y, rfl, h⟩)
      · simp only [encode, List.cons.injEq, and_true] at h
        exact absurd ⟨h.2.2.1, h.2.2.2⟩ hpad
      · have hx := x.toNat_lt
        have hy := y.toNat_lt
        simp only [encode, List.cons.injEq, and_true] at h
        obtain ⟨ha, hb, hc, hd⟩ := h
        refine ⟨_, ⟨by omega, ha⟩, _, ⟨by omega, hb⟩, _, ⟨by omega, hc⟩, (),
          ⟨hd, by omega⟩, ?_⟩
        simp only [List.cons.injEq, and_true]
        refine ⟨?_, ?_⟩
        all_goals
          apply UInt8.toNat_inj.1
          rw [Utf8.toNat_ofNat (by omega)]
          omega

-- =============================================================== texts

/-- Three octets are written as a group in front of the others. -/
theorem encode_three (x y z : UInt8) (octets : List UInt8) :
    encode (x :: y :: z :: octets) = encode [x, y, z] ++ encode octets := by
  simp [encode]

theorem encode_eq_nil_iff {octets : List UInt8} :
    encode octets = [] ↔ octets = [] := by
  match octets with
  | [] | [_] | [_, _] | _ :: _ :: _ :: _ => simp [encode]

/-- Reading is strict: what is read is the written form of what it stands for. -/
theorem decode?_eq_some_iff {cs : List Char} {octets : List UInt8} :
    decode? cs = some octets ↔ cs = encode octets := by
  fun_induction decode? cs generalizing octets with
  | case1 =>
      constructor
      · intro h
        cases h
        rfl
      · intro h
        rw [encode_eq_nil_iff.1 h.symm]
  | case2 a b c d rest hlast =>
      obtain ⟨hrest, hpad⟩ := Bool.and_eq_true_iff.1 hlast
      obtain rfl := List.isEmpty_iff.1 hrest
      obtain rfl := beq_iff_eq.1 hpad
      rw [decodeLast?_eq_some_iff]
      match octets with
      | [] => simp [encode]
      | [x] => simp
      | [x, y] =>
          constructor
          · rintro (⟨_, h, -⟩ | ⟨_, _, h, hgroup⟩)
            · cases h
            · cases h
              exact hgroup
          · intro hgroup
            exact .inr ⟨x, y, rfl, hgroup⟩
      | x :: y :: z :: octets =>
          -- a full group does not end in padding
          have hz := z.toNat_lt
          have hne := symbol_ne_pad (n := ((x.toNat * 0x100 + y.toNat) * 0x100
            + z.toNat) % 0x40) (by omega)
          simp [encode, hne.symm]
  | case3 a b c d rest hfull ih =>
      simp only [Option.bind_eq_bind, Option.bind_eq_some_iff, Option.pure_def,
        Option.some.injEq, decodeFour?_eq_some_iff, ih]
      constructor
      · rintro ⟨_, ⟨x, y, z, rfl, hgroup⟩, tail, rfl, rfl⟩
        show [a, b, c, d] ++ encode tail = _
        rw [hgroup]
        exact (encode_three x y z tail).symm
      · intro h
        match octets with
        | [] => simp [encode] at h
        | [_] | [_, _] =>
            simp only [encode, List.cons.injEq] at h
            simp [h] at hfull
        | x :: y :: z :: tail =>
            have hsame : [a, b, c, d] ++ rest
                = encode [x, y, z] ++ encode tail := by
              rw [← encode_three, ← h]
              rfl
            obtain ⟨hgroup, htail⟩ := List.append_inj hsame rfl
            exact ⟨_, ⟨x, y, z, rfl, hgroup⟩, tail, htail, rfl⟩
  | case4 cs hempty hshort =>
      refine iff_of_false (by simp) ?_
      rintro rfl
      match octets with
      | [] => exact hempty rfl
      | [_] | [_, _] | _ :: _ :: _ :: _ => exact hshort _ _ _ _ _ rfl

example : encode [0x66, 0x6F] = ['Z', 'm', '8', '='] := by decide

/-- The symbol of a value is in the alphabet. -/
theorem symbol_mem (n : Nat) : symbol n ∈ '=' :: alphabet := by
  unfold symbol
  rw [List.getD_eq_getElem?_getD]
  by_cases hn : n < alphabet.length
  · rw [List.getElem?_eq_getElem hn]
    exact List.mem_cons_of_mem _ (List.getElem_mem hn)
  · rw [List.getElem?_eq_none (Nat.not_lt.1 hn)]
    exact List.mem_cons_self ..

/-- Octets are written in the alphabet, and with padding. -/
theorem mem_encode {octets : List UInt8} :
    ∀ c ∈ encode octets, c ∈ '=' :: alphabet := by
  intro c hc
  -- three octets at a time, and then the one or two that are left
  fun_induction encode octets with
  | case1 a b d rest n ih =>
      simp only [List.mem_cons] at hc
      rcases hc with rfl | rfl | rfl | rfl | hc
      · exact symbol_mem _
      · exact symbol_mem _
      · exact symbol_mem _
      · exact symbol_mem _
      · exact ih hc
  | case2 a b n =>
      simp only [List.mem_cons, List.not_mem_nil, or_false] at hc
      rcases hc with rfl | rfl | rfl | rfl
      · exact symbol_mem _
      · exact symbol_mem _
      · exact symbol_mem _
      · exact List.mem_cons_self ..
  | case3 a n =>
      simp only [List.mem_cons, List.not_mem_nil, or_false] at hc
      rcases hc with rfl | rfl | rfl | rfl
      · exact symbol_mem _
      · exact symbol_mem _
      · exact List.mem_cons_self ..
      · exact List.mem_cons_self ..
  | case4 => exact absurd hc List.not_mem_nil

end ApiForge.Text.Base64
