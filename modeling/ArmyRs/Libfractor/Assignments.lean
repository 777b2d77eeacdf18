import ArmyRs.Foundation.Transition
import ArmyRs.Libfractor.NormalForm

/-!
# Programs with fractions

A program constructs fractions in variables, applies the operators to them, and changes
them by compound assignments, whose operands may be one and the same variable.  The value
of an expression is computed by such a program, with a variable for each subexpression.

`strip` divides by zero when the numerator is not zero and the denominator is.  In every
run that divides no fraction but zero by a fraction or an integer that is zero, no
integer division by zero is made and every denominator stays different from zero; only
`/=` with an integer checks for it (`run_good_iff_careful`).
-/

namespace ArmyRs
namespace Libfractor

open Foundation

/-- `Fractor::negative` -/
def negative (nom den : ℤ) : Bool :=
  if nom = 0 then false else xor (decide (0 < nom)) (decide (0 < den))

inductive Arith
  | add
  | sub
  | mul
  | div
  deriving DecidableEq, Repr

/-! ## Compound assignments -/

section

variable {Var : Type} [DecidableEq Var]

def setNom (s : Var → Fractor) (x : Var) (nom : ℤ) : Var → Fractor :=
  Function.update s x { s x with nom := nom }

def setDen (s : Var → Fractor) (x : Var) (den : ℤ) : Var → Fractor :=
  Function.update s x { s x with den := den }

/-- `x.strip()` -/
def stripAt (s : Var → Fractor) (x : Var) : Except Fault (Var → Fractor) := do
  let f ← (s x).strip
  .ok (Function.update s x f)

/-- `x += y` -/
def addAssign (s : Var → Fractor) (x y : Var) : Except Fault (Var → Fractor) := do
  let left ← checked ((s x).nom * (s y).den)
  let right ← checked ((s y).nom * (s x).den)
  let nom ← checked (left + right)
  let s := setNom s x nom
  if nom = 0 then stripAt (setDen s x 1) x
  else do
    let den ← checked ((s x).den * (s y).den)
    stripAt (setDen s x den) x

/-- `x -= y` -/
def subAssign (s : Var → Fractor) (x y : Var) : Except Fault (Var → Fractor) := do
  let left ← checked ((s x).nom * (s y).den)
  let right ← checked ((s y).nom * (s x).den)
  let nom ← checked (left - right)
  let s := setNom s x nom
  let den ← checked ((s x).den * (s y).den)
  stripAt (setDen s x (if nom = 0 then 1 else den)) x

/-- `x *= y` -/
def mulAssign (s : Var → Fractor) (x y : Var) : Except Fault (Var → Fractor) := do
  let nom ← checked ((s x).nom * (s y).nom)
  let s := setNom s x nom
  let den ← checked ((s x).den * (s y).den)
  stripAt (setDen s x den) x

/-- `x /= y`; the numerator of `y` is read after that of `x` has changed. -/
def divAssign (s : Var → Fractor) (x y : Var) : Except Fault (Var → Fractor) := do
  let nom ← checked ((s x).nom * (s y).den)
  let s := setNom s x nom
  let den ← checked ((s x).den * (s y).nom)
  stripAt (setDen s x den) x

/-- `if (nom == 0LL) den = 1LL;` and `strip`. -/
def stripSum (s : Var → Fractor) (x : Var) (nom : ℤ) : Except Fault (Var → Fractor) :=
  let s := setNom s x nom
  stripAt (if nom = 0 then setDen s x 1 else s) x

def addAssignInt (s : Var → Fractor) (x : Var) (b : ℤ) : Except Fault (Var → Fractor) := do
  let right ← checked (b * (s x).den)
  let nom ← checked ((s x).nom + right)
  stripSum s x nom

def subAssignInt (s : Var → Fractor) (x : Var) (b : ℤ) : Except Fault (Var → Fractor) := do
  let right ← checked (b * (s x).den)
  let nom ← checked ((s x).nom - right)
  stripSum s x nom

def mulAssignInt (s : Var → Fractor) (x : Var) (b : ℤ) : Except Fault (Var → Fractor) := do
  let nom ← checked ((s x).nom * b)
  stripSum s x nom

/-- `x /= b`; a quotient by zero becomes the largest or the least integer. -/
def divAssignInt (s : Var → Fractor) (x : Var) (b : ℤ) : Except Fault (Var → Fractor) := do
  let isNe := negative (s x).nom (s x).den
  let den ← checked ((s x).den * b)
  if den = 0 then
    stripAt (setDen (setNom s x (if isNe then -2 ^ 63 else 2 ^ 63 - 1)) x 1) x
  else stripAt (setDen s x den) x

end

namespace Arith

/-- The operator with a fraction on the right. -/
def operator (k : Arith) (b : Fractor) : Operator :=
  match k with
  | .add => .add b
  | .sub => .sub b
  | .mul => .mul b
  | .div => .div b

/-- The operator with an integer on the right. -/
def operatorInt (k : Arith) (b : ℤ) : Operator :=
  match k with
  | .add => .addInt b
  | .sub => .subInt b
  | .mul => .mulInt b
  | .div => .divInt b

variable {Var : Type} [DecidableEq Var]

def assign (k : Arith) (s : Var → Fractor) (x y : Var) : Except Fault (Var → Fractor) :=
  match k with
  | .add => addAssign s x y
  | .sub => subAssign s x y
  | .mul => mulAssign s x y
  | .div => divAssign s x y

def assignInt (k : Arith) (s : Var → Fractor) (x : Var) (b : ℤ) : Except Fault (Var → Fractor) :=
  match k with
  | .add => addAssignInt s x b
  | .sub => subAssignInt s x b
  | .mul => mulAssignInt s x b
  | .div => divAssignInt s x b

end Arith

/-! ## Programs -/

inductive Statement (Var : Type)
  /-- `x = Fractor(nom, den)`, and with the denominator 1 `x = nom`. -/
  | construct (x : Var) (nom den : ℤ)
  /-- `x = Fractor(f)`, where `nom` is `(int64_t)(f * den)`. -/
  | constructFloat (x : Var) (nom : ℤ)
  /-- `x = y` -/
  | copy (x y : Var)
  /-- `x = -y` -/
  | neg (x y : Var)
  /-- `x = y + z`, and with the other operators. -/
  | binary (k : Arith) (x y z : Var)
  | binaryInt (k : Arith) (x y : Var) (b : ℤ)
  /-- `x += y`, and with the other operators. -/
  | compound (k : Arith) (x y : Var)
  | compoundInt (k : Arith) (x : Var) (b : ℤ)
  deriving DecidableEq, Repr

/-- The variables, and whether an integer division by zero was made. -/
structure Machine (Var : Type) where
  vars : Var → Fractor
  divided : Bool

namespace Machine

variable {Var : Type} [DecidableEq Var]

/-- Every variable is `Fractor()`. -/
def new : Machine Var where
  vars := fun _ => .zero
  divided := false

/-- The fraction of the expression is put into the variable. -/
def store (s : Var → Fractor) (x : Var) (f : Except Fault Fractor) :
    Except Fault (Var → Fractor) := do
  let value ← f
  .ok (Function.update s x value)

def exec (s : Var → Fractor) : Statement Var → Except Fault (Var → Fractor)
  | .construct x nom den => .ok (Function.update s x ⟨nom, den⟩)
  | .constructFloat x nom => store s x (Fractor.strip ⟨nom, 10000⟩)
  | .copy x y => .ok (Function.update s x (s y))
  | .neg x y => store s x (s y).neg
  | .binary k x y z => store s x ((k.operator (s z)).apply (s y))
  | .binaryInt k x y b => store s x ((k.operatorInt b).apply (s y))
  | .compound k x y => k.assign s x y
  | .compoundInt k x b => k.assignInt s x b

/-- A denominator that is constructed is not zero. -/
def allowed : Statement Var → Bool
  | .construct _ _ den => decide (den ≠ 0)
  | _ => true

/-- A statement is executed; one that overflows is not part of a run. -/
def step (m : Machine Var) (statement : Statement Var) : Option (Machine Var) :=
  if allowed statement then
    match exec m.vars statement with
    | .ok vars => some { m with vars := vars }
    | .error .divByZero => some { m with divided := true }
    | .error .overflow => none
  else none

/-- No division by zero was made, and no denominator is zero. -/
structure Good (m : Machine Var) : Prop where
  divided : m.divided = false
  den : ∀ x, (m.vars x).den ≠ 0

/-- The statement leaves the machine good. -/
def Keeps (m : Machine Var) (statement : Statement Var) : Prop :=
  ∀ next, m.step statement = some next → next.Good

/-- Only zero is divided by zero, except by `/=` with an integer. -/
def Careful (m : Machine Var) : Statement Var → Prop
  | .binary .div _ y z => (m.vars z).nom = 0 → (m.vars y).nom = 0
  | .binaryInt .div _ y b => b = 0 → (m.vars y).nom = 0
  | .compound .div x y => (m.vars y).nom = 0 → (m.vars x).nom = 0
  | _ => True

end Machine

section

variable {Var : Type} [DecidableEq Var] {s : Var → Fractor} {x y : Var} {nom den : ℤ}

/-! ## What is stripped -/

@[simp] theorem den_setNom : (setNom s x nom y).den = (s y).den := by
  unfold setNom
  rw [Function.update_apply]
  split
  · next heq => rw [heq]
  · rfl

theorem nom_setNom : (setNom s x nom y).nom = if y = x then nom else (s y).nom := by
  unfold setNom
  rw [Function.update_apply]
  split <;> rfl

theorem stripAt_setDen_setNom :
    stripAt (setDen (setNom s x nom) x den) x = Machine.store s x (Fractor.strip ⟨nom, den⟩) := by
  unfold stripAt Machine.store setDen setNom
  simp only [Function.update_self, Function.update_idem]

theorem stripAt_setNom :
    stripAt (setNom s x nom) x = Machine.store s x (Fractor.strip ⟨nom, (s x).den⟩) := by
  unfold stripAt Machine.store setNom
  simp only [Function.update_self, Function.update_idem]

theorem stripAt_setDen :
    stripAt (setDen s x den) x = Machine.store s x (Fractor.strip ⟨(s x).nom, den⟩) := by
  unfold stripAt Machine.store setDen
  simp only [Function.update_self, Function.update_idem]

/-- A sum that is zero gets the denominator 1. -/
def sumRaw (nom den : ℤ) : Fractor := ⟨nom, if nom = 0 then 1 else den⟩

/-- What `x += y`, and the like, hands to `strip`. -/
def compoundRaw (s : Var → Fractor) (x y : Var) : Arith → Fractor
  | .add => sumRaw ((s x).nom * (s y).den + (s y).nom * (s x).den) ((s x).den * (s y).den)
  | .sub => sumRaw ((s x).nom * (s y).den - (s y).nom * (s x).den) ((s x).den * (s y).den)
  | .mul => ⟨(s x).nom * (s y).nom, (s x).den * (s y).den⟩
  | .div => ⟨(s x).nom * (s y).den,
      (s x).den * if y = x then (s x).nom * (s y).den else (s y).nom⟩

/-- What `x += b`, and the like, hands to `strip`. -/
def compoundIntRaw (s : Var → Fractor) (x : Var) (b : ℤ) : Arith → Fractor
  | .add => sumRaw ((s x).nom + b * (s x).den) (s x).den
  | .sub => sumRaw ((s x).nom - b * (s x).den) (s x).den
  | .mul => sumRaw ((s x).nom * b) (s x).den
  | .div =>
      if (s x).den * b = 0 then
        ⟨if negative (s x).nom (s x).den then -2 ^ 63 else 2 ^ 63 - 1, 1⟩
      else ⟨(s x).nom, (s x).den * b⟩

theorem assign_cases (k : Arith) (s : Var → Fractor) (x y : Var) :
    OrOverflow (k.assign s x y) True (Machine.store s x (compoundRaw s x y k).strip) := by
  cases k with
  | add =>
      refine orOverflow_bind fun _ => orOverflow_bind fun _ => orOverflow_bind fun _ => ?_
      unfold compoundRaw sumRaw
      dsimp only
      split
      · exact .inr ⟨trivial, stripAt_setDen_setNom⟩
      · refine orOverflow_bind fun _ => .inr ⟨trivial, ?_⟩
        rw [stripAt_setDen_setNom, den_setNom, den_setNom]
  | sub =>
      refine orOverflow_bind fun _ => orOverflow_bind fun _ => orOverflow_bind fun _ =>
        orOverflow_bind fun _ => .inr ⟨trivial, ?_⟩
      rw [stripAt_setDen_setNom, den_setNom, den_setNom]
      rfl
  | mul =>
      refine orOverflow_bind fun _ => orOverflow_bind fun _ => .inr ⟨trivial, ?_⟩
      rw [stripAt_setDen_setNom, den_setNom, den_setNom]
      rfl
  | div =>
      refine orOverflow_bind fun _ => orOverflow_bind fun _ => .inr ⟨trivial, ?_⟩
      rw [stripAt_setDen_setNom, den_setNom, nom_setNom]
      rfl

theorem stripSum_eq : stripSum s x nom = Machine.store s x (sumRaw nom (s x).den).strip := by
  unfold stripSum sumRaw
  dsimp only
  split
  · exact stripAt_setDen_setNom
  · exact stripAt_setNom

theorem assignInt_cases (k : Arith) (s : Var → Fractor) (x : Var) (b : ℤ) :
    OrOverflow (k.assignInt s x b) True (Machine.store s x (compoundIntRaw s x b k).strip) := by
  cases k with
  | add =>
      exact orOverflow_bind fun _ => orOverflow_bind fun _ => .inr ⟨trivial, stripSum_eq⟩
  | sub =>
      exact orOverflow_bind fun _ => orOverflow_bind fun _ => .inr ⟨trivial, stripSum_eq⟩
  | mul => exact orOverflow_bind fun _ => .inr ⟨trivial, stripSum_eq⟩
  | div =>
      refine orOverflow_bind fun _ => .inr ⟨trivial, ?_⟩
      unfold compoundIntRaw
      dsimp only
      split
      · exact stripAt_setDen_setNom
      · exact stripAt_setDen

end

namespace Machine

variable {Var : Type} [DecidableEq Var] {m next : Machine Var} {statement : Statement Var}
  {x y : Var} {f : Fractor} {statements : List (Statement Var)}

/-! ## One statement -/

theorem Good.update (hgood : m.Good) (hden : f.den ≠ 0) :
    Good { m with vars := Function.update m.vars x f } where
  divided := hgood.divided
  den := fun y => by
    show (Function.update m.vars x f y).den ≠ 0
    rw [Function.update_apply]
    split
    · exact hden
    · exact hgood.den y

/-- A fraction is stripped soundly. -/
def Sound (f : Fractor) : Prop := f.nom = 0 ∨ f.den ≠ 0

/-- `strip` gives a denominator that is not zero, or divides by zero. -/
theorem good_iff_sound (hgood : m.Good)
    (hexec : OrOverflow (exec m.vars statement) True (store m.vars x f.strip))
    (hstep : m.step statement = some next) : next.Good ↔ Sound f := by
  unfold step at hstep
  split at hstep
  swap
  · cases hstep
  rcases hexec with hover | ⟨-, hstore⟩
  · rw [hover] at hstep
    cases hstep
  rw [hstore, store, Fractor.strip_eq] at hstep
  by_cases hfault : f.nom ≤ -2 ^ 63 ∨ f.den ≤ -2 ^ 63
  · rw [if_pos hfault] at hstep
    cases hstep
  rw [if_neg hfault] at hstep
  by_cases hcut : f.CutOff
  · rw [if_pos hcut] at hstep
    cases hstep
    refine iff_of_true (hgood.update one_ne_zero) ?_
    by_contra hnot
    rw [Sound, not_or, not_not] at hnot
    rcases hcut with hzero | hlarge
    · exact hnot.1 hzero
    · rw [hnot.2, Int.natAbs_zero, Nat.zero_div] at hlarge
      omega
  rw [if_neg hcut] at hstep
  by_cases hden : f.den = 0
  · rw [if_pos hden] at hstep
    cases hstep
    refine iff_of_false (fun hnext => Bool.noConfusion hnext.divided) ?_
    rw [Sound, not_or, not_not]
    exact ⟨fun hzero => hcut (.inl hzero), hden⟩
  · rw [if_neg hden] at hstep
    cases hstep
    refine iff_of_true (hgood.update ?_) (.inr hden)
    exact Fractor.den_shifted_ne_zero (Fractor.den_reduced_ne_zero hden)

/-- The value of an operator is stored. -/
theorem store_apply_cases (s : Var → Fractor) (x : Var) (a : Fractor) (op : Operator) :
    OrOverflow (store s x (op.apply a)) True (store s x (op.raw a).strip) := by
  rcases op.apply_cases a with hover | ⟨-, hstrip⟩
  · rw [hover]
    exact .inl rfl
  · rw [hstrip]
    exact .inr ⟨trivial, rfl⟩

theorem sound_sumRaw {nom den : ℤ} (hden : den ≠ 0) : Sound (sumRaw nom den) := by
  refine .inr ?_
  unfold sumRaw
  dsimp only
  split
  · exact one_ne_zero
  · exact hden

/-- A fraction divided by another. -/
theorem sound_div_iff {a b : Fractor} (ha : a.den ≠ 0) (hb : b.den ≠ 0) :
    Sound ⟨a.nom * b.den, a.den * b.nom⟩ ↔ (b.nom = 0 → a.nom = 0) := by
  unfold Sound
  dsimp only
  rw [mul_eq_zero, mul_ne_zero_iff]
  tauto

theorem good_iff_careful (hgood : m.Good) (hstep : m.step statement = some next) :
    next.Good ↔ Careful m statement := by
  cases statement with
  | construct x nom den =>
      unfold step at hstep
      split at hstep
      · next hallowed =>
        cases hstep
        exact iff_of_true (hgood.update (by simpa [allowed] using hallowed)) trivial
      · cases hstep
  | constructFloat x nom =>
      have hsound := good_iff_sound hgood (.inr ⟨trivial, rfl⟩) hstep
      exact hsound.trans (iff_of_true (.inr (show (10000 : ℤ) ≠ 0 by decide)) trivial)
  | copy x y =>
      cases hstep
      exact iff_of_true (hgood.update (hgood.den y)) trivial
  | neg x y =>
      refine iff_of_true ?_ trivial
      have hneg : OrOverflow (m.vars y).neg True (.ok ⟨-(m.vars y).nom, (m.vars y).den⟩) :=
        orOverflow_bind fun _ => .inr ⟨trivial, rfl⟩
      have hexec : exec m.vars (.neg x y) = store m.vars x (m.vars y).neg := rfl
      unfold step at hstep
      rw [hexec] at hstep
      rcases hneg with hover | ⟨-, hvalue⟩
      · rw [hover] at hstep
        cases hstep
      · rw [hvalue] at hstep
        cases hstep
        have hden := hgood.den y
        exact hgood.update hden
  | binary k x y z =>
      have hexec : OrOverflow (exec m.vars (.binary k x y z)) True
          (store m.vars x ((k.operator (m.vars z)).raw (m.vars y)).strip) :=
        store_apply_cases _ _ _ _
      rw [good_iff_sound hgood hexec hstep]
      have hden := mul_ne_zero (hgood.den y) (hgood.den z)
      cases k with
      | add => exact iff_of_true (.inr hden) trivial
      | sub => exact iff_of_true (.inr hden) trivial
      | mul => exact iff_of_true (.inr hden) trivial
      | div => exact sound_div_iff (hgood.den y) (hgood.den z)
  | binaryInt k x y b =>
      have hexec : OrOverflow (exec m.vars (.binaryInt k x y b)) True
          (store m.vars x ((k.operatorInt b).raw (m.vars y)).strip) := store_apply_cases _ _ _ _
      rw [good_iff_sound hgood hexec hstep]
      have hden := hgood.den y
      cases k with
      | add => exact iff_of_true (.inr hden) trivial
      | sub => exact iff_of_true (.inr hden) trivial
      | mul => exact iff_of_true (.inr hden) trivial
      | div =>
          show (m.vars y).nom = 0 ∨ (m.vars y).den * b ≠ 0 ↔ _
          rw [mul_ne_zero_iff]
          unfold Careful
          tauto
  | compound k x y =>
      have hexec : OrOverflow (exec m.vars (.compound k x y)) True
          (store m.vars x (compoundRaw m.vars x y k).strip) := assign_cases k m.vars x y
      rw [good_iff_sound hgood hexec hstep]
      have hden := mul_ne_zero (hgood.den x) (hgood.den y)
      cases k with
      | add => exact iff_of_true (sound_sumRaw hden) trivial
      | sub => exact iff_of_true (sound_sumRaw hden) trivial
      | mul => exact iff_of_true (.inr hden) trivial
      | div =>
          unfold compoundRaw
          dsimp only
          by_cases heq : y = x
          · -- the numerator of the divisor is the product already
            subst heq
            rw [if_pos rfl]
            refine iff_of_true ?_ id
            have hself := hgood.den y
            unfold Sound
            dsimp only
            rw [mul_ne_zero_iff, mul_ne_zero_iff, mul_eq_zero]
            tauto
          · rw [if_neg heq]
            exact sound_div_iff (hgood.den x) (hgood.den y)
  | compoundInt k x b =>
      have hexec : OrOverflow (exec m.vars (.compoundInt k x b)) True
          (store m.vars x (compoundIntRaw m.vars x b k).strip) := assignInt_cases k m.vars x b
      rw [good_iff_sound hgood hexec hstep]
      have hden := hgood.den x
      cases k with
      | add => exact iff_of_true (sound_sumRaw hden) trivial
      | sub => exact iff_of_true (sound_sumRaw hden) trivial
      | mul => exact iff_of_true (sound_sumRaw hden) trivial
      | div =>
          refine iff_of_true ?_ trivial
          unfold compoundIntRaw
          dsimp only
          split
          · exact .inr one_ne_zero
          · next hprod => exact .inr hprod

/-! ## Runs -/

omit [DecidableEq Var] in
theorem good_new : (new : Machine Var).Good where
  divided := rfl
  den := fun _ => one_ne_zero

/-- In a program without overflow: no integer division by zero is made and no denominator
is zero, as long as only zero is divided by zero, and no longer. -/
theorem run_good_iff_careful (statements : List (Statement Var)) (m : Machine Var) :
    Run step Keeps new statements m ↔ Run step Careful new statements m := by
  constructor
  · refine Run.mono_of_steps good_new ?_ ?_
    · intro state statement next hgood hkeeps hstep
      exact (good_iff_careful hgood hstep).mp (hkeeps next hstep)
    · intro state statement next hgood hkeeps hstep
      exact hkeeps next hstep
  · refine Run.mono_of_steps good_new ?_ ?_
    · intro state statement next hgood hcareful hstep other hother
      exact (good_iff_careful hgood hother).mpr hcareful
    · intro state statement next hgood hcareful hstep
      exact (good_iff_careful hgood hstep).mpr hcareful

/-- One is divided by zero. -/
def divideByZero : List (Statement Bool) :=
  [.construct true 1 1, .binary .div true true false]

/-- The greatest common divisor of 1 and 0 is computed by a division by zero. -/
theorem not_good_divideByZero :
    ¬ ∀ (statements : List (Statement Bool)) (m : Machine Bool),
      Run step free new statements m → m.Good := by
  intro hall
  have hgood := hall divideByZero _ (run_exec_getD new (by decide))
  have hdivided := hgood.divided
  revert hdivided
  decide

end Machine

end Libfractor
end ArmyRs
