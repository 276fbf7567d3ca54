import Unveil.Proofs.Image.Container
import Unveil.Proofs.Image.Reader
import Unveil.Proofs.Safety.Steps

namespace Unveil

namespace Container

variable {data : Bytes}

theorem safe_check {condition : Prop} [Decidable condition] :
    Safe (check condition) (check condition) :=
  Safe.demand rfl

theorem safe_check_bind {α : Type} {condition : Prop} [Decidable condition]
    {next next' : Unit → Except Fault α} (hnext : condition → Safe (next ()) (next' ())) :
    Safe (check condition >>= next) (check condition >>= next') :=
  Safe.demand_bind rfl hnext

theorem safe_number (data : Bytes) (offset width : Nat) :
    Safe (number data offset width) (number data offset width) :=
  safe_check_bind fun _ => Safe.pure _

theorem safe_u32 (data : Bytes) (offset : Nat) : Safe (u32 data offset) (u32 data offset) :=
  (safe_number data offset 4).map _

theorem safe_readOptional (data : Bytes) (start : Nat) :
    Safe (readOptional data start) (readOptional data start) := by
  refine (safe_number ..).bind fun magic _ => safe_check_bind fun _ => ?_
  refine (safe_number ..).bind fun count _ => safe_check_bind fun _ => ?_
  refine (Safe.mapM fun index _ => ?_).bind fun _ _ => (safe_u32 ..).bind fun _ _ =>
    (safe_u32 ..).bind fun _ _ => Safe.pure _
  exact (safe_u32 ..).bind fun _ _ => (safe_u32 ..).bind fun _ _ => Safe.pure _

theorem safe_readSection (data : Bytes) (offset : Nat) :
    Safe (readSection data offset) (readSection data offset) := by
  refine safe_check_bind fun hroom => ?_
  rw [Bytes.cut_of_le (by omega) (by omega), Except.ok_bind]
  exact safe_check_bind fun _ => (safe_u32 ..).bind fun _ _ => (safe_u32 ..).bind fun _ _ =>
    (safe_u32 ..).bind fun _ _ => (safe_u32 ..).bind fun _ _ => Safe.pure _

theorem safe_find (alignment : Nat) (sections : List Section) (address : Nat) :
    Safe (find alignment sections address) (find alignment sections address) := by
  refine safe_check_bind fun _ => ?_
  dsimp only
  split
  · exact Safe.pure _
  · exact Safe.error rfl

theorem safe_checkRuntime (data : Bytes) (alignment : Nat) (sections : List Section)
    (runtime : Region) :
    Safe (checkRuntime data alignment sections runtime)
      (checkRuntime data alignment sections runtime) := by
  refine (safe_find ..).bind fun header _ => safe_check_bind fun _ => ?_
  refine (safe_number ..).bind fun address _ => (safe_number ..).bind fun size _ => ?_
  refine (safe_find ..).bind fun metadata _ => ?_
  refine safe_check_bind fun _ => safe_check_bind fun _ => ?_
  refine (safe_number ..).bind fun length _ => safe_check_bind fun hroom => ?_
  rw [Bytes.cut_of_le (by omega) hroom, Except.ok_bind]
  exact safe_check_bind fun _ => safe_check

theorem safe_checkCertificates (data : Bytes) (offset stop : Nat) :
    Safe (checkCertificates data offset stop) (checkCertificates data offset stop) := by
  fun_induction checkCertificates data offset stop with
  | case1 offset hbefore ih =>
      exact (safe_number ..).bind fun length _ => (safe_number ..).bind fun _ _ =>
        (safe_number ..).bind fun _ _ => safe_check_bind fun _ => safe_check_bind fun _ =>
        safe_check_bind fun _ => ih length
  | case2 => exact Safe.pure ()

theorem safe_optionalOf (data : Bytes) (start size : Nat) :
    Safe (optionalOf data start size) (optionalOf data start size) :=
  Safe.ite (fun _ => Safe.ok none) fun _ => (safe_readOptional ..).map _

theorem safe_followRuntime (data : Bytes) (sections : List Section)
    (optional : Option OptionalHeader) :
    Safe (followRuntime data sections optional) (followRuntime data sections optional) := by
  unfold followRuntime
  split
  · exact Safe.pure ()
  · split
    · exact Safe.pure ()
    · exact safe_checkRuntime ..

theorem safe_followCertificates (data : Bytes) (optional : Option OptionalHeader) :
    Safe (followCertificates data optional) (followCertificates data optional) := by
  unfold followCertificates
  split
  · exact Safe.pure ()
  · split
    · exact Safe.pure ()
    · exact safe_check_bind fun _ => safe_checkCertificates ..

theorem safe_ofData (data : Bytes) : Safe (ofData data) (ofData data) := by
  rw [ofData_eq]
  refine (safe_number ..).bind fun _ _ => safe_check_bind fun _ => safe_check_bind fun _ => ?_
  refine (safe_number ..).bind fun start _ => (safe_number ..).bind fun _ _ => ?_
  refine safe_check_bind fun _ => safe_check_bind fun _ => safe_check_bind fun _ => ?_
  refine (safe_number ..).bind fun sectionCount _ => (safe_number ..).bind fun optionalSize _ => ?_
  refine (safe_optionalOf ..).bind fun optional _ => safe_check_bind fun _ => ?_
  refine (Safe.mapM fun index _ => safe_readSection ..).bind fun sections _ => ?_
  exact (safe_followRuntime ..).bind fun _ _ => (safe_followCertificates ..).bind fun _ _ =>
    Safe.pure _

end Container

namespace Image

/-- An address is at or behind the start of a section that claims it. -/
def locateStrictly (address : Nat) : List Section → Except Fault Nat
  | [] => .error (.malformed (.unmappedAddress address))
  | area :: others => do
      let first := area.virtualAddress.toNat
      let stop := first + (span area).toNat
      demand (stop < 0x100000000)
        (.malformed (.sectionOverflow area.virtualAddress (span area)))
      if first ≤ address ∧ address < stop then
        let distance ← Size.sub address first
        demand (distance < area.rawSize.toNat)
          (.malformed (.uninitializedAddress address))
        Size.add area.rawPointer.toNat distance
      else
        locateStrictly address others

def offsetOfStrictly (image : Image) (address : Nat) : Except Fault Nat := do
  demand (address < 0x100000000) (.malformed (.addressTooLarge address))
  locateStrictly address image.sections

theorem safe_locate (address : Nat) (sections : List Section) :
    Safe (locateStrictly address sections) (locate address sections) := by
  induction sections with
  | nil => exact Safe.error rfl
  | cons area others ih =>
      refine Safe.demand_bind rfl fun _ => Safe.ite (fun hclaimed => ?_) fun _ => ih
      refine Safe.step (Size.sub_of_le hclaimed.1) (Safe.demand_bind rfl fun hstored => ?_)
      have hpointer := area.rawPointer.toNat_lt
      have hraw := area.rawSize.toNat_lt
      rw [Size.add_of_lt (by unfold Size.limit; omega)]
      exact Safe.ok _

theorem safe_offsetOf (image : Image) (address : Nat) :
    Safe (image.offsetOfStrictly address) (image.offsetOf address) :=
  Safe.demand_bind rfl fun _ => safe_locate address image.sections

theorem safe_ofData [Container.LawfulReader] (data : Bytes) : Safe (ofData data) (ofData data) := by
  have hread : Safe (Container.Reader.read data) (Container.Reader.read data) :=
    ⟨rfl, Container.LawfulReader.ne_trap data⟩
  refine Safe.demand_bind rfl fun _ => hread.bind fun container _ => ?_
  cases container.optional with
  | none => exact Safe.error rfl
  | some header =>
      dsimp only
      cases (header.directory? Container.runtimeIndex).filter Region.isGiven with
      | none => exact Safe.error rfl
      | some runtime => exact Safe.ok _

end Image

end Unveil
