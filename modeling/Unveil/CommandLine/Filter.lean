import Unveil.Journal
import Unveil.Pattern.Acceptance
import Unveil.Pattern.Matching
import Unveil.Pieces
import Unveil.Text.Plain

/-!
Which remarks of a journal are shown, and how. A filter is a list of directives, each of
which sets a threshold for the parts of the program whose names begin in some
way, and a pattern that the text of a remark must hold. For a remark the
directive with the longest such beginning counts, and of two with the same
beginning the later one.

A filter is written as directives with commas between them and, behind a slash,
the pattern. What is not understood is complained about and left out.
-/

namespace Unveil.CommandLine

/-- The least rank of the remarks shown. A threshold past every rank shows
none. -/
abbrev Threshold := Nat

namespace Threshold

def ofVerbose (verbose : Bool) : Threshold :=
  if verbose then Level.debug.rank else Level.info.rank

/-- The threshold past every rank. -/
def silent : Threshold := Level.warn.rank + 1

def full : Threshold := Level.debug.rank

def ofName? (name : List Char) : Option Threshold :=
  match String.ofList (name.map Char.toLower) with
  | "off" | "error" => some silent
  | "warn" => some Level.warn.rank
  | "info" => some Level.info.rank
  | "debug" | "trace" => some full
  | _ => none

end Threshold

structure Directive where
  /-- How the names of the parts begin that the directive is for. -/
  beginning : List Char
  threshold : Threshold
  deriving DecidableEq, Repr

inductive Complaint where
  | unclear (part : String)
  | slashes (filter : String)
  | pattern (text : String) (refusal : Pattern.Refusal)
  deriving DecidableEq, Repr

def Complaint.text : Complaint → String
  | unclear part => "invalid logging spec '" ++ part ++ "'"
  | slashes filter => "invalid logging spec '" ++ filter ++ "' (too many '/'s)"
  | pattern text refusal => "invalid regex filter - " ++ refusal.text text

/-- Reads a directive. A name without a threshold shows everything of what it
names, and a threshold without a name is for all parts. -/
def Directive.read (part : List Char) : Except Complaint Directive :=
  match Pieces.split '=' part with
  | [name] =>
      match Threshold.ofName? name with
      | some threshold => .ok ⟨[], threshold⟩
      | none => .ok ⟨name, .full⟩
  | [name, threshold] =>
      let threshold := Text.trim threshold
      if threshold = [] then .ok ⟨name, .full⟩
      else
        match Threshold.ofName? threshold with
        | some threshold => .ok ⟨name, threshold⟩
        | none => .error (.unclear (String.ofList threshold))
  | _ => .error (.unclear (String.ofList part))

structure Filter where
  directives : List Directive
  pattern? : Option Pattern
  deriving Repr

namespace Filter

def ofThreshold (threshold : Threshold) : Filter :=
  ⟨[⟨Origin.program.toList, threshold⟩], none⟩

def take (filter : Filter) (complaints : List Complaint) :
    Except Complaint Directive → Filter × List Complaint
  | .ok directive =>
      ({ filter with directives := filter.directives ++ [directive] }, complaints)
  | .error complaint => (filter, complaints ++ [complaint])

def takeDirectives (filter : Filter) (text : List Char) : Filter × List Complaint :=
  let parts := ((Pieces.split ',' text).map Text.trim).filter (· ≠ [])
  parts.foldl (fun (filter, complaints) part => filter.take complaints (Directive.read part))
    (filter, [])

def takeText (filter : Filter) (text : String) : Filter × List Complaint :=
  match Pieces.split '/' text.toList with
  | [directives] => filter.takeDirectives directives
  | [directives, pattern] =>
      let (filter, complaints) := filter.takeDirectives directives
      let pattern := String.ofList pattern
      match Pattern.read pattern with
      | .ok found => ({ filter with pattern? := some found }, complaints)
      | .error refusal => (filter, complaints ++ [.pattern pattern refusal])
  | _ => (filter, [.slashes text])

/-- Of two directives the one with the longer beginning, and the later one if
there is none. -/
def closer (best? : Option Directive) (directive : Directive) : Option Directive :=
  match best? with
  | none => some directive
  | some best =>
      some (if best.beginning.length ≤ directive.beginning.length then directive else best)

/-- The directive that counts for a part of the program. -/
def directive? (filter : Filter) (origin : Origin) : Option Directive :=
  (filter.directives.filter (·.beginning.isPrefixOf origin.path.toList)).foldl closer none

theorem foldl_closer {directives : List Directive} {best? : Option Directive}
    {chosen : Directive} (found : directives.foldl closer best? = some chosen) :
    (chosen ∈ directives ∨ best? = some chosen) ∧
      ∀ other, other ∈ directives ∨ best? = some other →
        other.beginning.length ≤ chosen.beginning.length := by
  induction directives generalizing best? with
  | nil =>
      refine ⟨Or.inr found, ?_⟩
      rintro other (listed | held)
      · cases listed
      · exact Nat.le_of_eq (by rw [Option.some.inj (held.symm.trans found)])
  | cons first rest ih =>
      rw [List.foldl_cons] at found
      obtain ⟨source, longest⟩ := ih found
      have kept : ∃ next, closer best? first = some next ∧
          (next = first ∨ best? = some next) ∧
          first.beginning.length ≤ next.beginning.length ∧
          ∀ best, best? = some best → best.beginning.length ≤ next.beginning.length := by
        cases best? with
        | none => exact ⟨first, rfl, Or.inl rfl, Nat.le_refl _, by simp⟩
        | some best =>
            by_cases longer : best.beginning.length ≤ first.beginning.length
            · exact ⟨first, by simp [closer, longer], Or.inl rfl, Nat.le_refl _,
                by simpa using longer⟩
            · exact ⟨best, by simp [closer, longer], Or.inr rfl, by omega, by simp⟩
      obtain ⟨next, picked, origin, covers, outdoes⟩ := kept
      have reached := longest next (Or.inr picked)
      constructor
      · rcases source with listed | held
        · exact Or.inl (List.mem_cons_of_mem _ listed)
        · have same : next = chosen := Option.some.inj (picked.symm.trans held)
          rw [same] at origin
          rcases origin with rfl | earlier
          · exact Or.inl List.mem_cons_self
          · exact Or.inr earlier
      · rintro other (listed | held)
        · rcases List.mem_cons.mp listed with rfl | later
          · exact Nat.le_trans covers reached
          · exact longest other (Or.inl later)
        · exact Nat.le_trans (outdoes other held) reached

/-- The directive that counts for a part of the program is one of the filter's
and names the part, and none that does has a longer beginning. -/
theorem directive?_longest {filter : Filter} {origin : Origin} {chosen : Directive}
    (found : filter.directive? origin = some chosen) :
    chosen ∈ filter.directives ∧ chosen.beginning <+: origin.path.toList ∧
      ∀ other ∈ filter.directives, other.beginning <+: origin.path.toList →
        other.beginning.length ≤ chosen.beginning.length := by
  obtain ⟨source, longest⟩ := foldl_closer found
  have listed := source.resolve_right (by simp)
  obtain ⟨member, names⟩ := List.mem_filter.mp listed
  refine ⟨member, List.isPrefixOf_iff_prefix.mp names, fun other found begins => ?_⟩
  exact longest other (Or.inl (List.mem_filter.mpr
    ⟨found, List.isPrefixOf_iff_prefix.mpr begins⟩))

def shows (filter : Filter) (remark : Remark) : Bool :=
  (filter.directive? remark.origin).any (·.threshold ≤ remark.level.rank) &&
    filter.pattern?.all (·.isIn remark.text)

end Filter

/-- What stands in front of a remark: its level, padded to five letters. -/
def levelLabel (level : Level) : String :=
  "[" ++ level.text ++ String.ofList (.replicate (5 - level.text.length) ' ') ++ "] "

def remarkText (remark : Remark) : String :=
  let lines := (Pieces.split '\n' remark.text.toList).map String.ofList
  Text.plain .pauses (levelLabel remark.level ++ String.intercalate "\n    " lines ++ "\n")

def journalText (filter : Filter) (journal : Journal) : String :=
  String.join ((journal.toList.filter filter.shows).map remarkText)

end Unveil.CommandLine
