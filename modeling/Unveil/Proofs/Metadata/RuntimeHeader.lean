import Unveil.Metadata.RuntimeHeader
import Unveil.Proofs.Bytes.Spelling
import Unveil.Proofs.Outcome

namespace Unveil

namespace Scan

variable {α β : Type} {data data' : Bytes} {start middle stop : Nat}

/-- Two scans that come to the same from `start` on, and go no other way than
to `stop`. -/
def Alike (a b : Scan α) (start stop : Nat) : Prop :=
  a start = b start ∧ ∀ value next, a start = .ok value next → next = stop

theorem alike_pure (value : α) (start : Nat) :
    Alike (pure value : Scan α) (pure value) start start :=
  ⟨rfl, fun _ _ h => (EStateM.pure_eq_ok.mp h).2.symm⟩

theorem Alike.bind {a b : Scan α} {f g : α → Scan β} (h : Alike a b start middle)
    (hnext : ∀ value, Alike (f value) (g value) middle stop) :
    Alike (a >>= f) (b >>= g) start stop := by
  obtain ⟨hsame, hreach⟩ := h
  cases hstep : a start with
  | error fault reached =>
      refine ⟨?_, fun value next hok => ?_⟩
      · rw [EStateM.bind_of_error hstep, EStateM.bind_of_error (hsame ▸ hstep)]
      · rw [EStateM.bind_of_error hstep] at hok
        cases hok
  | ok first reached =>
      obtain rfl := hreach first reached hstep
      refine ⟨?_, fun value next hok => ?_⟩
      · rw [EStateM.bind_of_ok hstep, EStateM.bind_of_ok (hsame ▸ hstep)]
        exact (hnext first).1
      · rw [EStateM.bind_of_ok hstep] at hok
        exact (hnext first).2 value next hok

theorem alike_number {width : Nat} (f : Nat → α) (hsize : data'.size = data.size)
    (hagree : Bytes.Agree data' data start (start + width)) :
    Alike (f <$> number data' width) (f <$> number data width) start (start + width) := by
  have hnumber : number data' width start = number data width start := by
    rw [number, number, hsize, Bytes.number_congr hagree]
  constructor
  · simp only [Functor.map, EStateM.map, hnumber]
  · intro value next hok
    obtain ⟨word, hword, -⟩ := EStateM.map_eq_ok.mp hok
    unfold number at hword
    split at hword
    · cases hword
      rfl
    · cases hword

end Scan

open Scan

variable {data data' : Bytes} {start stop : Nat}

theorem Region.alike_scan (hsize : data'.size = data.size)
    (hagree : Bytes.Agree data' data start (start + 8)) :
    Alike (Region.scan data') (Region.scan data) start (start + 8) := by
  have haddress : Alike (u32 data') (u32 data) start (start + 4) :=
    alike_number UInt32.ofNat hsize (hagree.mono (Nat.le_refl _) (by omega))
  have hlength : Alike (u32 data') (u32 data) (start + 4) (start + 8) :=
    alike_number UInt32.ofNat hsize (hagree.mono (by omega) (by omega))
  exact haddress.bind fun _ => hlength.bind fun _ => alike_pure _ _

namespace RuntimeHeader

theorem alike_refuseIf (condition : Bool) (defect : Defect) (start : Nat) :
    Alike (refuseIf condition defect) (refuseIf condition defect) start start := by
  refine ⟨rfl, fun value next hok => ?_⟩
  cases condition with
  | false => exact (EStateM.pure_eq_ok.mp hok).2.symm
  | true => exact absurd hok EStateM.throw_ne_ok

theorem alike_scan (hsize : data'.size = data.size)
    (hagree : Bytes.Agree data' data 0 byteSize) : Alike (scan data') (scan data) 0 byteSize := by
  have hword (start : Nat) (hroom : start + 4 ≤ byteSize) :
      Alike (u32 data') (u32 data) start (start + 4) :=
    alike_number UInt32.ofNat hsize (hagree.mono (Nat.zero_le _) hroom)
  have hhalf (start : Nat) (hroom : start + 2 ≤ byteSize) :
      Alike (u16 data') (u16 data) start (start + 2) :=
    alike_number UInt16.ofNat hsize (hagree.mono (Nat.zero_le _) hroom)
  have hregion (start : Nat) (hroom : start + 8 ≤ byteSize) :
      Alike (Region.scan data') (Region.scan data) start (start + 8) :=
    Region.alike_scan hsize (hagree.mono (Nat.zero_le _) hroom)
  unfold scan
  refine (hword 0 (by decide)).bind fun _ => (alike_refuseIf _ _ _).bind fun _ => ?_
  refine (hhalf 4 (by decide)).bind fun _ => (hhalf 6 (by decide)).bind fun _ =>
    (alike_refuseIf _ _ _).bind fun _ => ?_
  refine (hword 8 (by decide)).bind fun _ => (alike_refuseIf _ _ _).bind fun _ => ?_
  refine (hword 12 (by decide)).bind fun _ => (alike_refuseIf _ _ _).bind fun _ =>
    (alike_refuseIf _ _ _).bind fun _ => ?_
  refine (hword 16 (by decide)).bind fun _ => (hword 20 (by decide)).bind fun _ => ?_
  refine (hregion 24 (by decide)).bind fun _ => (alike_refuseIf _ _ _).bind fun _ => ?_
  refine (hregion 32 (by decide)).bind fun _ => (alike_refuseIf _ _ _).bind fun _ => ?_
  refine (hregion 40 (by decide)).bind fun _ => (hregion 48 (by decide)).bind fun _ =>
    (alike_refuseIf _ _ _).bind fun _ => ?_
  exact (hregion 56 (by decide)).bind fun _ => (hregion 64 (by decide)).bind fun _ =>
    alike_pure _ _

/-- Only its 72 bytes decide how the header is read. -/
theorem ofData_congr (hsize : data'.size = data.size)
    (hagree : Bytes.Agree data' data 0 byteSize) : ofData data' = ofData data := by
  rw [ofData, ofData, hsize, valueAt, valueAt, (alike_scan hsize hagree).1]

end RuntimeHeader

section Results

variable {α β : Type} {holds : β → Prop}

/-- Whatever a scan reads, this holds of it. -/
def Scan.Ensures (scan : Scan β) (holds : β → Prop) : Prop :=
  ∀ start value stop, scan start = .ok value stop → holds value

theorem Scan.ensures_bind {scan : Scan α} {next : α → Scan β}
    (h : ∀ value, (next value).Ensures holds) : (scan >>= next).Ensures holds := by
  intro start value stop hscan
  obtain ⟨first, middle, -, hrest⟩ := EStateM.bind_eq_ok.mp hscan
  exact h first middle value stop hrest

theorem Scan.ensures_pure {value : β} (h : holds value) : (pure value : Scan β).Ensures holds := by
  intro start other stop hscan
  exact (EStateM.pure_eq_ok.mp hscan).1 ▸ h

/-- What is read behind a refusal may rely on it. -/
theorem RuntimeHeader.ensures_refuseIf {condition : Bool} {defect : Defect}
    {next : Unit → Scan β} (h : condition = false → (next ()).Ensures holds) :
    (refuseIf condition defect >>= next).Ensures holds := by
  cases condition with
  | false => exact h rfl
  | true =>
      intro start value stop hscan
      cases hscan

/-- Larger metadata is refused. -/
theorem RuntimeHeader.metadataSize_le {data : Bytes} {header : RuntimeHeader}
    (h : ofData data = .ok header) : header.metadata.size.toNat ≤ metadataLimit := by
  have hscan : (scan data).Ensures fun header => header.metadata.size.toNat ≤ metadataLimit := by
    refine Scan.ensures_bind fun _ => ensures_refuseIf fun _ => ?_
    refine Scan.ensures_bind fun _ => Scan.ensures_bind fun _ => ensures_refuseIf fun _ => ?_
    refine Scan.ensures_bind fun _ => ensures_refuseIf fun _ => Scan.ensures_bind fun size => ?_
    refine ensures_refuseIf fun _ => ensures_refuseIf fun hlimit => ?_
    refine Scan.ensures_bind fun _ => Scan.ensures_bind fun _ => Scan.ensures_bind fun _ => ?_
    refine ensures_refuseIf fun _ => Scan.ensures_bind fun _ => ensures_refuseIf fun _ => ?_
    refine Scan.ensures_bind fun _ => Scan.ensures_bind fun _ => ensures_refuseIf fun _ => ?_
    refine Scan.ensures_bind fun _ => Scan.ensures_bind fun _ => Scan.ensures_pure ?_
    exact Nat.le_of_not_lt (of_decide_eq_false hlimit)
  obtain ⟨_, -, hvalue⟩ := Except.bind_eq_ok.mp h
  obtain ⟨stop, hheader⟩ := Scan.valueAt_eq_ok.mp hvalue
  exact hscan 0 header stop hheader

end Results

end Unveil
