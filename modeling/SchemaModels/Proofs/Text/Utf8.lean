import Mathlib.Algebra.GroupWithZero.Nat
import Mathlib.Data.List.Basic
import SchemaModels.Text.Utf8

namespace SchemaModels.Text

/-- The first two bytes of a sequence of several: how many bytes follow the first one, and the
bounds that the second one keeps. -/
structure Leads (n : Nat) (b c : UInt8) : Prop where
  count : (n = 1 ∧ 0xc2 ≤ b ∧ b < 0xe0) ∨ (n = 2 ∧ 0xe0 ≤ b ∧ b < 0xf0) ∨
    (n = 3 ∧ 0xf0 ≤ b ∧ b ≤ 0xf4)
  second : 0x80 ≤ c ∧ c ≤ 0xbf
  shortest : (b = 0xe0 → 0xa0 ≤ c) ∧ (b = 0xf0 → 0x90 ≤ c)
  scalar : (b = 0xed → c ≤ 0x9f) ∧ (b = 0xf4 → c ≤ 0x8f)

theorem leads_iff {n : Nat} {b c : UInt8} :
    Leads (n + 1) b c ↔ ∃ lo hi, leadShape b = some (n + 1, lo, hi) ∧ lo ≤ c ∧ c ≤ hi := by
  unfold leadShape
  constructor
  · rintro ⟨hcount, hsecond, hshortest, hscalar⟩
    rcases hcount with ⟨hn, hle, hlt⟩ | ⟨hn, hle, hlt⟩ | ⟨hn, hle, hlt⟩
    · grind
    · grind
    · grind
  · rintro ⟨lo, hi, hshape, hlo, hhi⟩
    have hfirst : 0xc2 ≤ b := by grind
    have hlast : b ≤ 0xf4 := by grind
    constructor <;> grind

theorem le_of_leadShape {b lo hi : UInt8} {n : Nat} (h : leadShape b = some (n, lo, hi)) :
    0x80 ≤ lo := by
  grind [leadShape]

theorem continuation_isPrefix (n : Nat) (lo hi : UInt8) (bs : Bytes) :
    continuation n lo hi bs <+: bs := by
  fun_induction continuation n lo hi bs with
  | case1 n lo hi b rest _ ih => exact (List.prefix_cons_inj b).2 ih
  | case2 => exact List.nil_prefix
  | case3 => exact List.nil_prefix

theorem continuation_append_ascii {lo f : UInt8} (hlo : 0x80 ≤ lo) (hf : f < 0x80) (n : Nat)
    (hi : UInt8) (front back : Bytes) :
    continuation n lo hi (front ++ f :: back) = continuation n lo hi front := by
  have hstop : ¬ lo ≤ f := UInt8.not_le.2 (UInt8.lt_of_lt_of_le hf hlo)
  induction front generalizing n lo hi with
  | nil =>
    cases n with
    | zero => rfl
    | succ n => rw [List.nil_append, continuation, if_neg fun h => hstop h.1, continuation]; simp
  | cons b front ih =>
    cases n with
    | zero => rfl
    | succ n =>
      rw [List.cons_append, continuation, continuation]
      rw [ih (by decide) n 0xbf (UInt8.not_le.2 hf)]

theorem scalars_cons_none {b : UInt8} (h : leadShape b = none) (rest : Bytes) :
    scalars (b :: rest) = none :: scalars rest := by
  rw [scalars, h]

theorem scalars_cons_some {b lo hi : UInt8} {n : Nat} (h : leadShape b = some (n, lo, hi))
    (rest : Bytes) : scalars (b :: rest) =
      (if (continuation n lo hi rest).length = n then
        some (Char.ofNat (scalarValue (leadBits n b) (continuation n lo hi rest))) else none) ::
      scalars (rest.drop (continuation n lo hi rest).length) := by
  rw [scalars, h]

theorem scalars_ascii {f : UInt8} (hf : f < 0x80) (back : Bytes) :
    scalars (f :: back) = some (Char.ofNat f.toNat) :: scalars back := by
  have hshape : leadShape f = some (0, 0x80, 0xbf) := if_pos hf
  rw [scalars_cons_some hshape, continuation]
  · rfl
  · simp

theorem scalars_append_ascii {f : UInt8} (hf : f < 0x80) (front back : Bytes) :
    scalars (front ++ f :: back) = scalars front ++ some (Char.ofNat f.toNat) :: scalars back := by
  fun_induction scalars front with
  | case1 => exact scalars_ascii hf back
  | case2 b rest hshape ih => rw [List.cons_append, scalars_cons_none hshape, ih, List.cons_append]
  | case3 b rest n lo hi hshape tail scalar ih =>
    have htail : continuation n lo hi (rest ++ f :: back) = tail :=
      continuation_append_ascii (le_of_leadShape hshape) hf n hi rest back
    have hlength : tail.length ≤ rest.length := (continuation_isPrefix n lo hi rest).length_le
    rw [List.cons_append, scalars_cons_some hshape, htail, List.drop_append_of_le_length hlength,
      ih]
    rfl

theorem mul_le_scalarValue (lead : Nat) (tail : Bytes) :
    lead * 64 ^ tail.length ≤ scalarValue lead tail := by
  induction tail generalizing lead with
  | nil => exact Nat.le_of_eq (Nat.mul_one lead)
  | cons c tail ih =>
    calc lead * 64 ^ (c :: tail).length
        = lead * 64 * 64 ^ tail.length := by rw [List.length_cons, Nat.pow_succ', Nat.mul_assoc]
      _ ≤ (lead * 64 + c.toNat % 64) * 64 ^ tail.length :=
        Nat.mul_le_mul_right _ (Nat.le_add_right _ _)
      _ ≤ scalarValue (lead * 64 + c.toNat % 64) tail := ih _

theorem Leads.le_scalarValue {b c : UInt8} {tail : Bytes} (h : Leads (tail.length + 1) b c) :
    0x80 ≤ scalarValue (leadBits (tail.length + 1) b) (c :: tail) := by
  have hle := mul_le_scalarValue (leadBits (tail.length + 1) b * 64 + c.toNat % 64) tail
  refine Nat.le_trans ?_ hle
  obtain ⟨hcount, hsecond, hshortest, -⟩ := h
  simp only [UInt8.lt_iff_toNat_lt, UInt8.le_iff_toNat_le, ← UInt8.toNat_inj,
    UInt8.reduceToNat] at hcount hsecond hshortest
  rcases hcount with ⟨hn, hb⟩ | ⟨hn, hb⟩ | ⟨hn, hb⟩ <;> rw [Nat.succ.inj hn, leadBits] <;>
    simp only [Nat.reduceSub, Nat.reduceShiftLeft, Nat.reducePow] <;> omega

theorem of_mem_head?_continuation {n : Nat} {lo hi c : UInt8} {rest : Bytes}
    (h : c ∈ (continuation n lo hi rest).head?) : lo ≤ c ∧ c ≤ hi := by
  cases n with
  | zero => cases h
  | succ n =>
    cases rest with
    | nil => cases h
    | cons b rest =>
      rw [continuation] at h
      split at h
      · cases h
        assumption
      · cases h

theorem eq_of_ofNat_eq_feed {n : Nat} (h : Char.ofNat n = '\n') : n = 0x0a := by
  by_cases hn : n.isValidChar
  · rw [Char.ofNat, dif_pos hn] at h
    exact congrArg Char.toNat h
  · rw [Char.ofNat, dif_neg hn] at h
    cases h

theorem feed_mem_of_mem_scalars {bs : Bytes} (h : some '\n' ∈ scalars bs) : 0x0a ∈ bs := by
  fun_induction scalars bs with
  | case1 => cases h
  | case2 b rest hshape ih =>
    rcases List.mem_cons.1 h with heq | hmem
    · cases heq
    · exact List.mem_cons_of_mem b (ih hmem)
  | case3 b rest n lo hi hshape tail scalar ih =>
    rcases List.mem_cons.1 h with heq | hmem
    · obtain ⟨hlength, hchar⟩ := Option.ite_none_right_eq_some.1 heq.symm
      have hvalue := eq_of_ofNat_eq_feed (Option.some.inj hchar)
      cases n with
      | zero =>
        rw [List.length_eq_zero_iff.1 hlength] at hvalue
        rw [List.mem_cons, ← UInt8.toNat_inj]
        exact Or.inl hvalue.symm
      | succ n =>
        obtain ⟨c, more, htail⟩ := List.exists_cons_of_length_eq_add_one hlength
        obtain rfl : more.length = n := by simpa [htail] using hlength
        have hc : lo ≤ c ∧ c ≤ hi :=
          of_mem_head?_continuation (show c ∈ tail.head? by rw [htail]; rfl)
        have hle := (leads_iff.2 ⟨lo, hi, hshape, hc⟩).le_scalarValue
        rw [← htail, hvalue] at hle
        exact absurd hle (by decide)
    · exact List.mem_cons_of_mem b (List.mem_of_mem_drop (ih hmem))

@[simp] theorem decodeLossy_nil : decodeLossy [] = [] := by
  rw [decodeLossy, scalars]
  rfl

theorem decodeLossy_append_ascii {f : UInt8} (hf : f < 0x80) (front back : Bytes) :
    decodeLossy (front ++ f :: back) =
      decodeLossy front ++ Char.ofNat f.toNat :: decodeLossy back := by
  simp only [decodeLossy, scalars_append_ascii hf, List.map_append, List.map_cons,
    Option.getD_some]

theorem decodeLossy_append_feed (front back : Bytes) :
    decodeLossy (front ++ 0x0a :: back) = decodeLossy front ++ '\n' :: decodeLossy back :=
  decodeLossy_append_ascii (by decide) front back

theorem feed_notMem_decodeLossy {bs : Bytes} (h : 0x0a ∉ bs) : '\n' ∉ decodeLossy bs := by
  intro hmem
  obtain ⟨scalar, hscalar, heq⟩ := List.mem_map.1 hmem
  cases scalar with
  | none => exact absurd heq (by decide)
  | some c =>
    obtain rfl : c = '\n' := heq
    exact h (feed_mem_of_mem_scalars hscalar)

/-- There are as many lines in a text as in its bytes. -/
theorem count_feed_decodeLossy (bs : Bytes) : (decodeLossy bs).count '\n' = bs.count 0x0a := by
  induction hlen : bs.length using Nat.strongRecOn generalizing bs with
  | ind n ih =>
    by_cases h : 0x0a ∈ bs
    · obtain ⟨front, back, rfl, hfront⟩ := List.eq_append_cons_of_mem h
      have hback : (decodeLossy back).count '\n' = back.count 0x0a := by
        refine ih back.length ?_ back rfl
        rw [List.length_append, List.length_cons] at hlen
        omega
      rw [decodeLossy_append_feed, List.count_append, List.count_append, List.count_cons_self,
        List.count_cons_self, hback, List.count_eq_zero.2 hfront,
        List.count_eq_zero.2 (feed_notMem_decodeLossy hfront)]
    · rw [List.count_eq_zero.2 h, List.count_eq_zero.2 (feed_notMem_decodeLossy h)]

theorem continuation_of_bounds {c lo hi : UInt8} {tail : Bytes} (hc : lo ≤ c ∧ c ≤ hi)
    (htail : ∀ d ∈ tail, 0x80 ≤ d ∧ d ≤ 0xbf) (rest : Bytes) :
    continuation (tail.length + 1) lo hi (c :: tail ++ rest) = c :: tail := by
  induction tail generalizing c lo hi with
  | nil => exact if_pos hc
  | cons d tail ih =>
    rw [List.forall_mem_cons] at htail
    rw [List.cons_append, continuation, if_pos hc, List.length_cons, ih htail.1 htail.2]

theorem scalars_sequence {b c : UInt8} {tail : Bytes} (h : Leads (tail.length + 1) b c)
    (htail : ∀ d ∈ tail, 0x80 ≤ d ∧ d ≤ 0xbf) (rest : Bytes) :
    scalars (b :: (c :: tail ++ rest)) =
      some (Char.ofNat (scalarValue (leadBits (tail.length + 1) b) (c :: tail))) ::
        scalars rest := by
  obtain ⟨lo, hi, hshape, hc⟩ := leads_iff.1 h
  rw [scalars_cons_some hshape, continuation_of_bounds hc htail rest, if_pos List.length_cons,
    List.drop_left]

theorem leads_ofNat {n x y : Nat}
    (hcount : (n = 1 ∧ 0xc2 ≤ x ∧ x < 0xe0) ∨ (n = 2 ∧ 0xe0 ≤ x ∧ x < 0xf0) ∨
      (n = 3 ∧ 0xf0 ≤ x ∧ x ≤ 0xf4))
    (hshortest : (x = 0xe0 → 0x20 ≤ y % 64) ∧ (x = 0xf0 → 0x10 ≤ y % 64))
    (hscalar : (x = 0xed → y % 64 < 0x20) ∧ (x = 0xf4 → y % 64 < 0x10)) :
    Leads n (UInt8.ofNat x) (UInt8.ofNat (y % 64 + 0x80)) := by
  have hx : (UInt8.ofNat x).toNat = x :=
    UInt8.toNat_ofNat_of_lt' (Nat.lt_succ_of_le (show x ≤ 0xff by omega))
  have hy : (UInt8.ofNat (y % 64 + 0x80)).toNat = y % 64 + 0x80 :=
    UInt8.toNat_ofNat_of_lt' (Nat.lt_succ_of_le (show y % 64 + 0x80 ≤ 0xff by omega))
  constructor <;> simp only [UInt8.lt_iff_toNat_lt, UInt8.le_iff_toNat_le, ← UInt8.toNat_inj, hx,
    hy, UInt8.reduceToNat]
  · exact hcount
  all_goals omega

theorem scalars_utf8EncodeChar (c : Char) (rest : Bytes) :
    scalars (String.utf8EncodeChar c ++ rest) = some c :: scalars rest := by
  have hc : Char.ofNat c.val.toNat = c := Char.ofNat_toNat c
  have hvalid : c.val.toNat < 0xd800 ∨ 0xdfff < c.val.toNat ∧ c.val.toNat < 0x110000 := c.valid
  have htail (n : Nat) :
      0x80 ≤ UInt8.ofNat (n % 64 + 0x80) ∧ UInt8.ofNat (n % 64 + 0x80) ≤ 0xbf := by
    simp only [UInt8.le_iff_toNat_le, UInt8.toNat_ofNat', UInt8.reduceToNat]
    omega
  unfold String.utf8EncodeChar
  generalize c.val.toNat = v at hc hvalid
  subst hc
  dsimp only
  -- The scalar value tells how many bytes there are.
  split_ifs with hone htwo hthree
  · have hv : (UInt8.ofNat v).toNat = v :=
      UInt8.toNat_ofNat_of_lt' (Nat.lt_of_le_of_lt hone (by decide))
    have hascii : UInt8.ofNat v < 0x80 := by
      rw [UInt8.lt_iff_toNat_lt, hv]
      exact Nat.lt_succ_of_le hone
    rw [List.singleton_append, scalars_ascii hascii, hv]
  · have hleads : Leads 1 (UInt8.ofNat (v / 64 % 32 + 0xc0)) (UInt8.ofNat (v % 64 + 0x80)) :=
      leads_ofNat (by omega) (by omega) (by omega)
    refine (@scalars_sequence _ _ [] hleads (List.forall_mem_nil _) rest).trans ?_
    congr 3
    simp [scalarValue, leadBits]
    omega
  · have hleads : Leads 2 (UInt8.ofNat (v / 4096 % 16 + 0xe0))
        (UInt8.ofNat (v / 64 % 64 + 0x80)) := leads_ofNat (by omega) (by omega) (by omega)
    refine (@scalars_sequence _ _ [_] hleads (List.forall_mem_singleton.2 (htail v)) rest).trans ?_
    congr 3
    simp [scalarValue, leadBits]
    omega
  · have hleads : Leads 3 (UInt8.ofNat (v / 262144 % 8 + 0xf0))
        (UInt8.ofNat (v / 4096 % 64 + 0x80)) := leads_ofNat (by omega) (by omega) (by omega)
    refine (@scalars_sequence _ _ [_, _] hleads (List.forall_mem_cons.2
      ⟨htail (v / 64), List.forall_mem_singleton.2 (htail v)⟩) rest).trans ?_
    congr 3
    simp [scalarValue, leadBits]
    omega

theorem decodeLossy_encode (cs : List Char) : decodeLossy (encode cs) = cs := by
  induction cs with
  | nil => exact decodeLossy_nil
  | cons c cs ih =>
    rw [encode, List.flatMap_cons, decodeLossy, scalars_utf8EncodeChar, List.map_cons]
    exact congrArg (c :: ·) ih

end SchemaModels.Text
