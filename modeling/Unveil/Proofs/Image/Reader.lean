import Unveil.Image.Basic
import Unveil.Proofs.Outcome

/-!
Images from any reader of containers. All that is known of a reader is in
`Container.LawfulReader`: where the checksum of a file is, which bytes decide what is
read, and that nothing goes wrong in reading.
-/

namespace Unveil

namespace Container

/-- A reader whose containers have their checksum in the file, where only some bytes
matter for what is read. The checksum is not one of them: it is taken over. -/
class LawfulReader extends Reader where
  /-- The bytes whose values matter when a container with an optional header is read. -/
  Interprets (data : Bytes) (container : Container) (header : OptionalHeader) : Nat → Prop
  checksum_room {data : Bytes} {container : Container} {header : OptionalHeader}
    (h : read data = .ok container) (hoptional : container.optional = some header) :
    container.start + 24 + checksumDistance + 4 ≤ data.size
  checksum_eq {data : Bytes} {container : Container} {header : OptionalHeader}
    (h : read data = .ok container) (hoptional : container.optional = some header) :
    header.checksum = .ofNat (data.number (container.start + 24 + checksumDistance) 4)
  /-- A file with the same interpreted bytes has the same container, with its own
  checksum. -/
  read_of_agree {data data' : Bytes} {container : Container} {header : OptionalHeader}
    (h : read data = .ok container) (hoptional : container.optional = some header)
    (hsize : data'.size = data.size)
    (hagree : ∀ i, Interprets data container header i → data'.getD i 0 = data.getD i 0) :
    read data' = .ok { container with optional := some { header with
      checksum := .ofNat (data'.number (container.start + 24 + checksumDistance) 4) } }
  ne_trap (data : Bytes) : read data ≠ .error .trap

end Container

namespace Image

open Container

/-- What stands behind an image: the container that was read, and its optional
header. -/
structure Opened [Reader] (data : Bytes) (image : Image) where
  container : Container
  header : OptionalHeader
  nonempty : data.size ≠ 0
  read_eq : Reader.read data = .ok container
  optional_eq : container.optional = some header
  data_eq : image.data = data
  start_eq : image.start = container.start
  checksum_eq : image.checksum = header.checksum
  runtime_eq : (header.directory? runtimeIndex).filter Region.isGiven = some image.runtime
  certificates_eq : image.certificates =
    (header.directory? certificateIndex).filter Region.isGiven
  sections_eq : image.sections = container.sections

variable {data data' : Bytes} {image : Image}

theorem ofData_eq_ok [Reader] : Image.ofData data = .ok image ↔ Nonempty (Opened data image) := by
  simp only [Image.ofData, Except.bind_eq_ok, demand_eq_ok]
  constructor
  · rintro ⟨-, hnonempty, container, hread, himage⟩
    cases hoptional : container.optional with
    | none =>
        rw [hoptional] at himage
        cases himage
    | some header =>
        simp only [hoptional] at himage
        cases hruntime : (header.directory? runtimeIndex).filter Region.isGiven with
        | none =>
            rw [hruntime] at himage
            cases himage
        | some runtime =>
            rw [hruntime] at himage
            cases himage
            exact ⟨container, header, hnonempty, hread, hoptional, rfl, rfl, rfl, hruntime, rfl,
              rfl⟩
  · rintro ⟨opened⟩
    refine ⟨(), opened.nonempty, opened.container, opened.read_eq, ?_⟩
    simp only [opened.optional_eq, opened.runtime_eq, ← opened.certificates_eq,
      ← opened.sections_eq, ← opened.start_eq, ← opened.checksum_eq, ← opened.data_eq]

namespace Opened

variable [LawfulReader]

theorem checksum_room (opened : Opened data image) : image.checksumOffset + 4 ≤ data.size := by
  rw [checksumOffset, opened.start_eq]
  exact LawfulReader.checksum_room opened.read_eq opened.optional_eq

theorem checksum_eq_number (opened : Opened data image) :
    image.checksum = UInt32.ofNat (data.number image.checksumOffset 4) := by
  rw [opened.checksum_eq, checksumOffset, opened.start_eq]
  exact LawfulReader.checksum_eq opened.read_eq opened.optional_eq

end Opened

/-- The image of other bytes. -/
def withData (image : Image) (data : Bytes) : Image :=
  { image with data, checksum := .ofNat (data.number image.checksumOffset 4) }

/-- An image whose interpreted bytes stay is opened again. -/
def Opened.withData [LawfulReader] (opened : Opened data image) (hsize : data'.size = data.size)
    (hagree : ∀ i, LawfulReader.Interprets data opened.container opened.header i →
      data'.getD i 0 = data.getD i 0) : Opened data' (image.withData data') where
  container := { opened.container with optional := some { opened.header with
    checksum := .ofNat (data'.number (opened.container.start + 24 + checksumDistance) 4) } }
  header := { opened.header with
    checksum := .ofNat (data'.number (opened.container.start + 24 + checksumDistance) 4) }
  nonempty := hsize ▸ opened.nonempty
  read_eq := LawfulReader.read_of_agree opened.read_eq opened.optional_eq hsize hagree
  optional_eq := rfl
  data_eq := rfl
  start_eq := opened.start_eq
  checksum_eq := by rw [← opened.start_eq]; rfl
  runtime_eq := opened.runtime_eq
  certificates_eq := opened.certificates_eq
  sections_eq := opened.sections_eq

end Image

end Unveil
