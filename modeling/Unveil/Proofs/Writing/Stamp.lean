import Unveil.Proofs.Image.Checksum
import Unveil.Proofs.Writing.Module

/-!
The checksum of a written file. It is computed before it is stored, so it fits
the finished file only if what stands in its field makes no difference; that is
so where the file header starts at an even offset.
-/

namespace Unveil

namespace Module

variable {data : Bytes} {image : Image} {module : Module}

theorem checksumOffset_even (h : image.start % 2 = 0) : image.checksumOffset % 2 = 0 := by
  simp only [Image.checksumOffset, Container.checksumDistance]
  omega

/-- A checksum that is brought up to date stands in its field and fits the file
around it. -/
theorem restamp_consistent {strategy : Strategy} {output : Bytes}
    (hrestamps : module.Restamps strategy) (hstart : module.image.start % 2 = 0)
    (hroom : module.image.checksumOffset + 4 ≤ output.size) :
    (module.restamp strategy output).number module.image.checksumOffset 4 =
        (Checksum.compute output module.image.checksumOffset).toNat ∧
      Checksum.compute (module.restamp strategy output) module.image.checksumOffset =
        Checksum.compute output module.image.checksumOffset := by
  rw [restamp_of_restamps strategy hrestamps]
  refine ⟨?_, Checksum.compute_overwrite (checksumOffset_even hstart) ..⟩
  rw [Bytes.number_overwrite_spell hroom]
  exact Nat.mod_eq_of_lt (UInt32.toNat_lt _)

/-- A checksum that fits already stays. -/
theorem restamp_eq_self {output : Bytes}
    (hfits : output.number module.image.checksumOffset 4 =
      (Checksum.compute output module.image.checksumOffset).toNat)
    (hroom : module.image.checksumOffset + 4 ≤ output.size) (strategy : Strategy) :
    module.restamp strategy output = output := by
  by_cases hrestamps : module.Restamps strategy
  · rw [restamp_of_restamps strategy hrestamps, ← hfits, Bytes.spell_number]
    apply Bytes.overwrite_eq_self
    · rw [List.length_map, List.length_range']
    · rw [List.length_map, List.length_range']
      exact hroom
  · exact restamp_of_not strategy hrestamps

/-- A written checksum is consistent. Where the file header starts at an even
offset, a managed write of a module with a checksum reports one that stands in the
written file and is the checksum of that file, whatever became of the
declarations. -/
theorem written_checksum_consistent [Container.LawfulReader] {journal after : Journal}
    (hload : Module.ofData data journal = .ok module after)
    (hstart : module.image.start % 2 = 0) (hchecksum : module.image.checksum ≠ 0)
    {strategy? : Option Strategy}
    (hmanaged : strategy?.getD (.forPayload module.payload) = .managed)
    {forest : Forest} {target : Path} {tag : String} {before log : Journal} {host host' : Host}
    {report : Report}
    (hwrite : ((write (m := Hosted) { module with types := forest } target strategy? tag).run
      before).run host = ((.ok report, log), host')) :
    ∃ checksum output, report.checksum = some checksum ∧
      host'.store.read? target = some output ∧
      output.number module.image.checksumOffset 4 = checksum.toNat ∧
      Checksum.compute output module.image.checksumOffset = checksum := by
  obtain ⟨⟨loaded⟩, ⟨opened⟩, rfl⟩ := loaded_of_ofData hload
  obtain ⟨hread, rfl⟩ := loaded.outcome_of_write opened forest hwrite
  have hrestamps : module.Restamps (strategy?.getD (.forPayload module.payload)) :=
    ⟨hmanaged, hchecksum⟩
  have hroom : module.image.checksumOffset + 4 ≤ (loaded.revised (.ofForest forest)).size := by
    rw [loaded.size_revised]
    exact opened.checksum_room
  obtain ⟨hnumber, hcompute⟩ := restamp_consistent hrestamps hstart hroom
  exact ⟨_, _, if_pos hrestamps, hread, hnumber, hcompute⟩

open Framing in
/-- The smallest module, made public and written by itself, gets a checksum that
fits it. -/
theorem written_checksum_consistent_plain :
    ∃ after report log host' checksum output,
      Module.ofData plain #[] = .ok plainModule after ∧ plainModule.image.start % 2 = 0 ∧
      plainModule.image.checksum ≠ 0 ∧
      ((write (m := Hosted) plainModule.published ⟨['o', 'u', 't']⟩ none "0").run #[]).run
        (Host.sound Store.empty) = ((.ok report, log), host') ∧
      report.checksum = some checksum ∧
      host'.store.read? ⟨['o', 'u', 't']⟩ = some output ∧
      output.number plainModule.image.checksumOffset 4 = checksum.toNat ∧
      Checksum.compute output plainModule.image.checksumOffset = checksum := by
  obtain ⟨tables, after, tally, unveiled, report, log, host', hload, -, -, hwrite⟩ :=
    plain_sound.written
  obtain ⟨checksum, output, hreport, hread, hnumber, hcompute⟩ :=
    written_checksum_consistent hload rfl (by decide) rfl hwrite
  exact ⟨after, report, log, host', checksum, output, hload, rfl, by decide, hwrite, hreport,
    hread, hnumber, hcompute⟩

end Module

end Unveil
