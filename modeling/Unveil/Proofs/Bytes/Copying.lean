import Unveil.Proofs.Bytes.Spelling
import Unveil.Proofs.Outcome

/-!
Writers that put down bytes known in advance. `Emit.Copies goal emit start stop`
says that `emit`, started at `start` on a sheet that is as `goal` so far, comes
to an end at `stop` with a sheet that is as `goal` up to there. Writers that
copy one after the other copy together, so a writer of a whole stream is shown
to reproduce its goal column by column.
-/

namespace Unveil

/-- The bytes before `offset` are those of `goal`, and there is room for the
others. -/
structure Follows (goal bytes : Bytes) (offset : Nat) : Prop where
  size : bytes.size = goal.size
  agree : Bytes.Agree bytes goal 0 offset

namespace Emit

variable {α β : Type} {goal : Bytes} {start middle stop : Nat}

/-- Copies `goal` from `start` to `stop`, and gives `value`. -/
def Copies (goal : Bytes) (emit : Emit α) (start stop : Nat) (value : α) : Prop :=
  ∀ bytes, Follows goal bytes start →
    ∃ after, emit ⟨bytes, start⟩ = .ok value ⟨after, stop⟩ ∧ Follows goal after stop

theorem copies_pure (value : α) : Copies goal (pure value) start start value :=
  fun bytes hfollows => ⟨bytes, rfl, hfollows⟩

theorem Copies.bind {emit : Emit α} {next : α → Emit β} {a : α} {b : β}
    (hfirst : Copies goal emit start middle a) (hnext : Copies goal (next a) middle stop b) :
    Copies goal (emit >>= next) start stop b := by
  intro bytes hfollows
  obtain ⟨between, hok, hbetween⟩ := hfirst bytes hfollows
  obtain ⟨after, hok', hafter⟩ := hnext between hbetween
  exact ⟨after, by rw [EStateM.bind_of_ok hok, hok'], hafter⟩

theorem copies_position : Copies goal position start start start :=
  fun bytes hfollows => ⟨bytes, rfl, hfollows⟩

theorem copies_lift {result : Except Fault α} {value : α} (h : result = .ok value) :
    Copies goal (lift result) start start value := by
  subst h
  exact fun bytes hfollows => ⟨bytes, rfl, hfollows⟩

/-- Bytes that stand in `goal` are put down where `goal` has them. -/
theorem follows_overwrite {bytes : Bytes} {part : List UInt8} (hfollows : Follows goal bytes start)
    (hroom : start + part.length ≤ goal.size)
    (hpart : ∀ k (hk : k < part.length), part[k] = goal.getD (start + k) 0) :
    Follows goal (bytes.overwrite start part) (start + part.length) := by
  refine ⟨by simp [hfollows.size], ?_⟩
  intro i _ hi
  by_cases hbefore : i < start
  · rw [Bytes.getD_overwrite_outside (Or.inl hbefore)]
    exact hfollows.agree i (Nat.zero_le i) hbefore
  · obtain ⟨k, rfl⟩ := Nat.exists_eq_add_of_le (Nat.le_of_not_lt hbefore)
    have hk : k < part.length := by omega
    rw [Bytes.getD_overwrite_inside (by rw [hfollows.size]; exact hroom) hk, hpart k hk]

theorem copies_number {width value : Nat} (hroom : start + width ≤ goal.size)
    (hvalue : goal.number start width = value) :
    Copies goal (number width value) start (start + width) () := by
  intro bytes hfollows
  have hspelled := Bytes.spell_number goal start width
  rw [hvalue] at hspelled
  refine ⟨bytes.overwrite start (Bytes.spell width value), ?_, ?_⟩
  · simp only [number, hfollows.size, hroom, ↓reduceIte]
  · have hcopied : Follows goal (bytes.overwrite start (Bytes.spell width value))
        (start + (Bytes.spell width value).length) :=
      follows_overwrite hfollows (by simpa using hroom) fun k hk => by simp [hspelled]
    simpa using hcopied

theorem copies_bytes {part : Bytes} (hroom : start + part.size ≤ goal.size)
    (hpart : ∀ k, k < part.size → part.getD k 0 = goal.getD (start + k) 0) :
    Copies goal (Emit.bytes part) start (start + part.size) () := by
  intro sheet hfollows
  refine ⟨sheet.overwrite start part.toList, ?_, ?_⟩
  · simp only [Emit.bytes, hfollows.size, hroom, ↓reduceIte]
  · have hbytes : ∀ k (hk : k < part.toList.length), part.toList[k] = goal.getD (start + k) 0 := by
      intro k hk
      rw [← hpart k (by simpa using hk), Array.getD_eq_getD_getElem?]
      simp only [Array.length_toList] at hk
      simp [hk]
    have hcopied : Follows goal (sheet.overwrite start part.toList)
        (start + part.toList.length) :=
      follows_overwrite hfollows (by simpa using hroom) hbytes
    simpa using hcopied

/-- A value that was read from a column of `goal` fits that column again. -/
theorem copies_column {wide : Bool} {width : Nat} {value : UInt32}
    (hwidth : width = if wide then 4 else 2) (hroom : start + width ≤ goal.size)
    (hvalue : value = UInt32.ofNat (goal.number start width)) :
    Copies goal (column wide value) start (start + width) () := by
  have hlt := Bytes.number_lt goal start width
  cases wide with
  | true =>
      simp only [↓reduceIte] at hwidth
      subst hwidth
      have htoNat : value.toNat = goal.number start 4 := by
        rw [hvalue, UInt32.toNat_ofNat']
        exact Nat.mod_eq_of_lt hlt
      exact copies_number hroom htoNat.symm
  | false =>
      simp only [Bool.false_eq_true, ↓reduceIte] at hwidth
      subst hwidth
      have htoNat : value.toNat = goal.number start 2 := by
        rw [hvalue, UInt32.toNat_ofNat']
        exact Nat.mod_eq_of_lt (Nat.lt_trans hlt (by decide))
      have hfits : value.toNat < 0x10000 := by
        rw [htoNat]
        exact hlt
      simp only [column, Bool.false_eq_true, ↓reduceIte, hfits]
      exact copies_number hroom htoNat.symm

/-- A loop copies if every round does. Round `k` goes from `at k` to
`at (k + 1)` and takes the result from `result k` to `result (k + 1)`. -/
theorem copies_foldlM {γ : Type} {items : List γ} {step : α → γ → Emit α}
    (place : Nat → Nat) (result : Nat → α)
    (h : ∀ k item, items[k]? = some item →
      Copies goal (step (result k) item) (place k) (place (k + 1)) (result (k + 1))) :
    Copies goal (items.foldlM step (result 0)) (place 0) (place items.length)
      (result items.length) := by
  induction items generalizing place result with
  | nil => exact copies_pure _
  | cons item items ih =>
      rw [List.foldlM_cons]
      refine (h 0 item rfl).bind ?_
      exact ih (fun k => place (k + 1)) (fun k => result (k + 1))
        fun k later hlater => h (k + 1) later (by simpa using hlater)

theorem copies_forM {γ : Type} {items : List γ} {step : γ → Emit Unit} (place : Nat → Nat)
    (h : ∀ k item, items[k]? = some item → Copies goal (step item) (place k) (place (k + 1)) ()) :
    Copies goal (items.forM step) (place 0) (place items.length) () := by
  induction items generalizing place with
  | nil => exact copies_pure _
  | cons item items ih =>
      change Copies goal (step item >>= fun _ => items.forM step) _ _ _
      refine (h 0 item rfl).bind ?_
      exact ih (fun k => place (k + 1)) fun k later hlater => h (k + 1) later (by simpa using hlater)

/-- Comes to an end with a fault if started at `start` on a sheet that is as
`goal` so far. -/
def Fails (goal : Bytes) (emit : Emit α) (start : Nat) (fault : Fault) : Prop :=
  ∀ bytes, Follows goal bytes start → ∃ sheet, emit ⟨bytes, start⟩ = .error fault sheet

variable {fault : Fault}

theorem fails_lift {result : Except Fault α} (h : result = .error fault) :
    Fails goal (lift result) start fault := by
  subst h
  exact fun bytes _ => ⟨⟨bytes, start⟩, rfl⟩

theorem Fails.bind {emit : Emit α} {next : α → Emit β} (h : Fails goal emit start fault) :
    Fails goal (emit >>= next) start fault := by
  intro bytes hfollows
  obtain ⟨sheet, herror⟩ := h bytes hfollows
  exact ⟨sheet, EStateM.bind_of_error herror⟩

theorem Copies.bind_fails {emit : Emit α} {next : α → Emit β} {a : α}
    (hfirst : Copies goal emit start middle a) (hnext : Fails goal (next a) middle fault) :
    Fails goal (emit >>= next) start fault := by
  intro bytes hfollows
  obtain ⟨between, hok, hbetween⟩ := hfirst bytes hfollows
  obtain ⟨sheet, herror⟩ := hnext between hbetween
  exact ⟨sheet, by rw [EStateM.bind_of_ok hok, herror]⟩

theorem fails_foldlM {γ : Type} {items : List γ} {step : α → γ → Emit α} {n : Nat} {last : γ}
    (place : Nat → Nat) (result : Nat → α)
    (h : ∀ k item, k < n → items[k]? = some item →
      Copies goal (step (result k) item) (place k) (place (k + 1)) (result (k + 1)))
    (hlast : items[n]? = some last) (hfails : Fails goal (step (result n) last) (place n) fault) :
    Fails goal (items.foldlM step (result 0)) (place 0) fault := by
  induction items generalizing n place result with
  | nil => simp at hlast
  | cons item items ih =>
      rw [List.foldlM_cons]
      cases n with
      | zero =>
          cases hlast
          exact hfails.bind
      | succ n =>
          refine (h 0 item (Nat.succ_pos n) rfl).bind_fails ?_
          exact ih (fun k => place (k + 1)) (fun k => result (k + 1))
            (fun k later hk hlater => h (k + 1) later (Nat.succ_lt_succ hk) (by simpa using hlater))
            (by simpa using hlast) hfails

theorem Fails.fill {emit : Emit α} (h : Fails goal emit 0 fault) :
    Emit.fill emit (.replicate goal.size 0) = .error fault := by
  have hblank : Follows goal (.replicate goal.size 0) 0 :=
    ⟨by simp, fun i _ hi => absurd hi (Nat.not_lt_zero i)⟩
  obtain ⟨sheet, herror⟩ := h _ hblank
  simp only [Emit.fill, herror]

/-- A writer that copies all of `goal` makes `goal`. -/
theorem Copies.fill {emit : Emit α} {value : α} (h : Copies goal emit 0 goal.size value) :
    Emit.fill emit (.replicate goal.size 0) = .ok (value, goal) := by
  have hblank : Follows goal (.replicate goal.size 0) 0 :=
    ⟨by simp, fun i _ hi => absurd hi (Nat.not_lt_zero i)⟩
  obtain ⟨after, hok, hafter⟩ := h _ hblank
  have hsame : after = goal :=
    Bytes.ext_getD hafter.size fun i hi => hafter.agree i (Nat.zero_le i) (hafter.size ▸ hi)
  simp only [Emit.fill, hok, hsame]

end Emit

end Unveil
