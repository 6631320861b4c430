import Mathlib.Data.BitVec
import Mathlib.Data.Fintype.EquivFin
import Mathlib.Logic.Function.Iterate

/-! # Feedback shift registers

A register of `w` bits that shifts right and XORs a polynomial in whenever the bit shifted out is one.
Steps are linear in XOR, so a run splits into what the low bits feed back and what the high bits are
moved to; and they are injective if the top bit of the polynomial is set. Symbols fed into the low end
of a register, as many as fit it, act as one word fed in at the start. -/

namespace ShiftRegister

variable {w : Nat} (poly : BitVec w)

/-- One step: shift right, and XOR the polynomial in if the bit shifted out is one. -/
def step (x : BitVec w) : BitVec w := (x >>> 1) ^^^ (if x.getLsbD 0 then poly else 0#w)

/-- A step with a clear low bit is a shift. -/
theorem step_of_clear {x : BitVec w} (h : x.getLsbD 0 = false) : step poly x = x >>> 1 := by
  rw [step, h, if_neg Bool.false_ne_true]
  exact BitVec.xor_zero

/-- **Linearity**: a step of an XOR is the XOR of the steps. -/
theorem step_xor (x y : BitVec w) : step poly (x ^^^ y) = step poly x ^^^ step poly y := by
  have hfeed : (if (x ^^^ y).getLsbD 0 then poly else 0#w)
      = (if x.getLsbD 0 then poly else 0#w) ^^^ (if y.getLsbD 0 then poly else 0#w) := by
    rw [BitVec.getLsbD_xor]
    cases x.getLsbD 0 <;> cases y.getLsbD 0 <;> simp
  rw [step, step, step, hfeed, BitVec.ushiftRight_xor_distrib]
  ac_rfl

/-- A run of steps is linear too. -/
theorem iterate_step_xor (n : Nat) (x y : BitVec w) :
    (step poly)^[n] (x ^^^ y) = (step poly)^[n] x ^^^ (step poly)^[n] y := by
  have hlinear : Function.Semiconj₂ (step poly) (· ^^^ ·) (· ^^^ ·) := step_xor poly
  exact hlinear.iterate n x y

/-- **Clear low bits feed nothing back**: the run only shifts. -/
theorem iterate_step_of_clear {n : Nat} {x : BitVec w} (h : ∀ i < n, x.getLsbD i = false) :
    (step poly)^[n] x = x >>> n := by
  induction n with
  | zero => exact (BitVec.ushiftRight_zero x).symm
  | succ n ih =>
    have hlow : (x >>> n).getLsbD 0 = false := by
      rw [BitVec.getLsbD_ushiftRight]; exact h n (Nat.lt_succ_self n)
    rw [Function.iterate_succ_apply', ih fun i hi => h i (Nat.lt_succ_of_lt hi),
      step_of_clear poly hlow, BitVec.shiftRight_add]

/-- **Low and high bits**: a run of `n` steps is a run on any word with the same low `n` bits, XOR the
difference shifted down. -/
theorem iterate_step_split {n : Nat} {x low : BitVec w}
    (h : ∀ i < n, low.getLsbD i = x.getLsbD i) :
    (step poly)^[n] x = (step poly)^[n] low ^^^ ((low ^^^ x) >>> n) := by
  have hclear : ∀ i < n, (low ^^^ x).getLsbD i = false := by
    intro i hi
    rw [BitVec.getLsbD_xor, h i hi, Bool.xor_self]
  have hsplit : x = low ^^^ (low ^^^ x) := by
    rw [← BitVec.xor_assoc, BitVec.xor_self, BitVec.zero_xor]
  rw [← iterate_step_of_clear poly hclear, ← iterate_step_xor, ← hsplit]

/-! ### Injectivity -/

/-- A register that steps to zero was zero, if the polynomial reaches the top bit. -/
theorem eq_zero_of_step_eq_zero (htop : poly.msb = true) {x : BitVec w} (h : step poly x = 0#w) :
    x = 0#w := by
  cases hlow : x.getLsbD 0 with
  | true =>
    -- the shifted word would be the polynomial, but its top bit is clear
    rw [step, hlow, if_pos rfl] at h
    have htopBit := congrArg BitVec.msb h
    rw [BitVec.msb_xor, htop, BitVec.msb_ushiftRight] at htopBit
    simp at htopBit
  | false =>
    rw [step_of_clear poly hlow] at h
    apply BitVec.eq_of_getLsbD_eq
    intro i hi
    rw [BitVec.getLsbD_zero]
    cases i with
    | zero => exact hlow
    | succ i =>
      have hbit := congrArg (fun y : BitVec w => y.getLsbD i) h
      simpa [Nat.add_comm] using hbit

/-- **Steps are injective** if the polynomial reaches the top bit. -/
theorem step_injective (htop : poly.msb = true) : Function.Injective (step poly) := by
  intro x y h
  have hzero : step poly (x ^^^ y) = 0#w := by
    rw [step_xor, h, BitVec.xor_self]
  exact BitVec.xor_eq_zero_iff.mp (eq_zero_of_step_eq_zero poly htop hzero)

/-! ### Feeding symbols in -/

/-- Feed a symbol of `n` bits into the low end of the register. -/
def feed (n : Nat) (x symbol : BitVec w) : BitVec w := (step poly)^[n] (x ^^^ symbol)

/-- The word of the symbols, the first one lowest. -/
def pack (n : Nat) : List (BitVec w) → BitVec w
  | [] => 0#w
  | symbol :: symbols => symbol ^^^ (pack n symbols <<< n)

/-- The symbols have `n` bits. -/
def Fits (n : Nat) (symbols : List (BitVec w)) : Prop :=
  ∀ symbol ∈ symbols, ∀ i, n ≤ i → symbol.getLsbD i = false

variable {n : Nat} {symbols others : List (BitVec w)}

/-- The word of symbols takes up their bits alone. -/
theorem getLsbD_pack_of_le (h : Fits n symbols) {i : Nat} (hi : n * symbols.length ≤ i) :
    (pack n symbols).getLsbD i = false := by
  induction symbols generalizing i with
  | nil => exact BitVec.getLsbD_zero
  | cons symbol symbols ih =>
    rw [List.length_cons, Nat.mul_succ] at hi
    have hrest := ih (fun s hs => h s (List.mem_cons_of_mem symbol hs))
      (show n * symbols.length ≤ i - n by omega)
    rw [pack, BitVec.getLsbD_xor, h symbol List.mem_cons_self i (by omega),
      BitVec.getLsbD_shiftLeft, hrest]
    simp

/-- The word of symbols that fit the register is shifted up and down unchanged. -/
theorem pack_shiftLeft_ushiftRight (h : Fits n symbols) (hw : n * (symbols.length + 1) ≤ w) :
    (pack n symbols <<< n) >>> n = pack n symbols := by
  apply BitVec.eq_of_getLsbD_eq
  intro i hi
  rw [BitVec.getLsbD_ushiftRight, BitVec.getLsbD_shiftLeft, Nat.add_sub_cancel_left]
  by_cases hin : n + i < w
  · simp [hin]
  · rw [Nat.mul_succ] at hw
    rw [getLsbD_pack_of_le h (i := i) (by omega)]
    simp

/-- **Feeding symbols is feeding their word**: symbols that fit the register together act as one word
XORed in at the start. -/
theorem foldl_feed_eq (h : Fits n symbols) (hw : n * symbols.length ≤ w) (x : BitVec w) :
    symbols.foldl (feed poly n) x = (step poly)^[n * symbols.length] (x ^^^ pack n symbols) := by
  induction symbols generalizing x with
  | nil => rw [List.foldl_nil, List.length_nil, Nat.mul_zero, pack]; exact BitVec.xor_zero.symm
  | cons symbol symbols ih =>
    have hrest : Fits n symbols := fun s hs => h s (List.mem_cons_of_mem symbol hs)
    rw [List.length_cons] at hw ⊢
    -- the word of the later symbols comes down to its place as the first one is fed
    have hmoved : (step poly)^[n] (pack n symbols <<< n) = pack n symbols := by
      rw [iterate_step_of_clear, pack_shiftLeft_ushiftRight hrest hw]
      intro i hi
      rw [BitVec.getLsbD_shiftLeft]
      simp [hi]
    rw [List.foldl_cons, ih hrest (by rw [Nat.mul_succ] at hw; omega), feed, Nat.mul_succ,
      Function.iterate_add_apply, pack, ← BitVec.xor_assoc,
      iterate_step_xor poly n _ (pack n symbols <<< n), hmoved]

/-- The word of symbols that fit the register tells them apart. -/
theorem pack_injective (h : Fits n symbols) (ho : Fits n others)
    (hlength : symbols.length = others.length) (hw : n * symbols.length ≤ w)
    (heq : pack n symbols = pack n others) : symbols = others := by
  induction symbols generalizing others with
  | nil => exact (List.length_eq_zero_iff.mp hlength.symm).symm
  | cons symbol symbols ih =>
    cases others with
    | nil => cases hlength
    | cons other others =>
      have hrest : Fits n symbols := fun s hs => h s (List.mem_cons_of_mem symbol hs)
      have horest : Fits n others := fun s hs => ho s (List.mem_cons_of_mem other hs)
      rw [List.length_cons] at hw
      have htail : symbols.length = others.length := Nat.succ.inj hlength
      have hbits : ∀ i, (pack n (symbol :: symbols)).getLsbD i
          = (pack n (other :: others)).getLsbD i := fun i => by rw [heq]
      -- the low bits are those of the first symbols
      have hfirst : symbol = other := by
        apply BitVec.eq_of_getLsbD_eq
        intro i hi
        by_cases hin : i < n
        · have hbit := hbits i
          rw [pack, pack, BitVec.getLsbD_xor, BitVec.getLsbD_xor, BitVec.getLsbD_shiftLeft,
            BitVec.getLsbD_shiftLeft] at hbit
          simpa [hin] using hbit
        · rw [h symbol List.mem_cons_self i (by omega), ho other List.mem_cons_self i (by omega)]
      have hshifted : pack n symbols <<< n = pack n others <<< n := by
        rw [pack, pack, hfirst] at heq
        exact BitVec.xor_right_inj _ |>.mp heq
      have hpacked : pack n symbols = pack n others := by
        rw [← pack_shiftLeft_ushiftRight hrest hw, hshifted,
          pack_shiftLeft_ushiftRight horest (by rw [← htail]; exact hw)]
      rw [hfirst, ih hrest horest htail (by rw [Nat.mul_succ] at hw; omega) hpacked]

/-- **Feeding tells short symbol strings apart**: from one state, symbols that fit the register lead to
different states. -/
theorem foldl_feed_injective (htop : poly.msb = true) (h : Fits n symbols) (ho : Fits n others)
    (hlength : symbols.length = others.length) (hw : n * symbols.length ≤ w) {x : BitVec w}
    (heq : symbols.foldl (feed poly n) x = others.foldl (feed poly n) x) : symbols = others := by
  rw [foldl_feed_eq poly h hw, foldl_feed_eq poly ho (by rw [← hlength]; exact hw), hlength] at heq
  have hword := (step_injective poly htop).iterate _ heq
  exact pack_injective h ho hlength hw ((BitVec.xor_right_inj x).mp hword)

/-- **Feeding tells states apart**: the same symbols lead different states to different states. -/
theorem foldl_feed_state_injective (htop : poly.msb = true) (symbols : List (BitVec w)) :
    Function.Injective fun x : BitVec w => symbols.foldl (feed poly n) x := by
  induction symbols with
  | nil => exact Function.injective_id
  | cons symbol symbols ih =>
    intro x y h
    have hfed := (step_injective poly htop).iterate n (ih h)
    exact (BitVec.xor_left_inj symbol).mp hfed

/-! ### Words as symbols -/

/-- The lowest `k` symbols of `n` bits of a word, the lowest one first. -/
def unpack (n : Nat) : (k : Nat) → BitVec w → List (BitVec w)
  | 0, _ => []
  | k + 1, x => (x.setWidth n).setWidth w :: unpack n k (x >>> n)

@[simp] theorem length_unpack (n k : Nat) (x : BitVec w) : (unpack n k x).length = k := by
  induction k generalizing x with
  | zero => rfl
  | succ k ih => rw [unpack, List.length_cons, ih]

theorem fits_unpack (n k : Nat) (x : BitVec w) : Fits n (unpack n k x) := by
  induction k generalizing x with
  | zero => intro symbol hsymbol; cases hsymbol
  | succ k ih =>
    intro symbol hsymbol i hi
    rcases List.mem_cons.mp hsymbol with rfl | hrest
    · rw [BitVec.getLsbD_setWidth, BitVec.getLsbD_setWidth]
      simp [Nat.not_lt.mpr hi]
    · exact ih (x >>> n) symbol hrest i hi

/-- The symbols of a word hold its bits. -/
theorem getLsbD_pack_unpack (n k : Nat) (x : BitVec w) {i : Nat} (hi : i < n * k) :
    (pack n (unpack n k x)).getLsbD i = x.getLsbD i := by
  induction k generalizing x i with
  | zero => exact absurd hi (Nat.not_lt_zero i)
  | succ k ih =>
    by_cases hw : i < w
    · rw [unpack, pack, BitVec.getLsbD_xor, BitVec.getLsbD_shiftLeft, BitVec.getLsbD_setWidth,
        BitVec.getLsbD_setWidth]
      by_cases hin : i < n
      · simp [hw, hin]
      · have hrest := ih (x >>> n) (i := i - n) (by rw [Nat.mul_succ] at hi; omega)
        rw [hrest, BitVec.getLsbD_ushiftRight, Nat.add_sub_cancel' (Nat.not_lt.mp hin)]
        simp [hw, hin]
    · rw [BitVec.getLsbD_of_ge _ _ (Nat.not_lt.mp hw), BitVec.getLsbD_of_ge _ _ (Nat.not_lt.mp hw)]

/-- A word is put together from its symbols. -/
theorem pack_unpack {n k : Nat} (hw : w ≤ n * k) (x : BitVec w) : pack n (unpack n k x) = x :=
  BitVec.eq_of_getLsbD_eq fun _ hi => getLsbD_pack_unpack n k x (Nat.lt_of_lt_of_le hi hw)

/-- **Symbols that fill the register reach every state, each in one way.** -/
theorem existsUnique_foldl_feed_eq (htop : poly.msb = true) {k : Nat} (hw : n * k = w)
    (x y : BitVec w) :
    ∃! symbols : List (BitVec w),
      symbols.length = k ∧ Fits n symbols ∧ symbols.foldl (feed poly n) x = y := by
  -- a run of steps is a permutation of the words
  have : Finite (BitVec w) := Finite.of_equiv (Fin (2 ^ w)) BitVec.equivFin.symm.toEquiv
  have hsurjective : Function.Surjective (step poly)^[n * k] :=
    Finite.surjective_of_injective ((step_injective poly htop).iterate (n * k))
  obtain ⟨word, hword⟩ := hsurjective y
  refine ⟨unpack n k (x ^^^ word), ⟨length_unpack n k _, fits_unpack n k _, ?_⟩, ?_⟩
  · have hfill : n * (unpack n k (x ^^^ word)).length = n * k := by rw [length_unpack]
    rw [foldl_feed_eq poly (fits_unpack n k _) (by rw [hfill]; exact hw.le), hfill,
      pack_unpack hw.ge, ← BitVec.xor_assoc, BitVec.xor_self, BitVec.zero_xor, hword]
  · rintro symbols ⟨hlength, hfits, hfed⟩
    have hfill : n * symbols.length ≤ w := by rw [hlength]; exact hw.le
    rw [foldl_feed_eq poly hfits hfill, hlength, ← hword] at hfed
    have hpacked : x ^^^ pack n symbols = word := (step_injective poly htop).iterate (n * k) hfed
    refine pack_injective hfits (fits_unpack n k _) (by rw [hlength, length_unpack]) hfill ?_
    rw [pack_unpack hw.ge, ← hpacked, ← BitVec.xor_assoc, BitVec.xor_self, BitVec.zero_xor]

/-! ### XORs of runs -/

/-- **Feeding is linear**: the XOR of two symbol strings leads from the XOR of two states to the XOR of
the states they lead to. -/
theorem foldl_feed_xor {n : Nat} {symbols others : List (BitVec w)}
    (hlength : symbols.length = others.length) (x y : BitVec w) :
    (List.zipWith (· ^^^ ·) symbols others).foldl (feed poly n) (x ^^^ y)
      = symbols.foldl (feed poly n) x ^^^ others.foldl (feed poly n) y := by
  induction symbols generalizing others x y with
  | nil => rw [List.length_eq_zero_iff.mp hlength.symm]; rfl
  | cons symbol symbols ih =>
    cases others with
    | nil => cases hlength
    | cons other others =>
      have hfed : feed poly n (x ^^^ y) (symbol ^^^ other)
          = feed poly n x symbol ^^^ feed poly n y other := by
        have hregroup : x ^^^ y ^^^ (symbol ^^^ other) = x ^^^ symbol ^^^ (y ^^^ other) := by ac_rfl
        rw [feed, feed, feed, hregroup, iterate_step_xor]
      rw [List.zipWith_cons_cons, List.foldl_cons, hfed, ih (Nat.succ.inj hlength)]
      rfl

end ShiftRegister
