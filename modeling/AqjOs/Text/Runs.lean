import Mathlib.Data.List.Basic

/-!
# Runs between delimiters

A list is read as its maximal runs of non-delimiters with single delimiters
between them.  A function of runs acts on the list run by run and leaves the
delimiters where they are.  The induction rule peels off one run at a time, and
it is all that the proofs about a text need to know of this reading.
-/

namespace AqjOs.Text

universe u

variable {α : Type u} {delimiter : α → Bool} {f g : List α → List α}

/-- No element of the list is a delimiter. -/
def Solid (delimiter : α → Bool) (run : List α) : Prop :=
  ∀ char ∈ run, delimiter char = false

instance (delimiter : α → Bool) (run : List α) : Decidable (Solid delimiter run) :=
  inferInstanceAs (Decidable (∀ char ∈ run, delimiter char = false))

theorem Solid.nil : Solid delimiter [] := by
  intro char member
  cases member

/-- A text is a single run, or a run followed by a delimiter and a text. -/
theorem runInduction (delimiter : α → Bool) {motive : List α → Prop}
    (single : ∀ run, Solid delimiter run → motive run)
    (more : ∀ run char rest, Solid delimiter run → delimiter char = true → motive rest →
      motive (run ++ char :: rest)) :
    ∀ text, motive text := by
  suffices general : ∀ text run, Solid delimiter run → motive (run ++ text) by
    intro text
    exact general text [] .nil
  intro text
  induction text with
  | nil =>
      intro run solid
      rw [List.append_nil]
      exact single run solid
  | cons char rest ih =>
      intro run solid
      cases delimits : delimiter char with
      | true => exact more run char rest solid delimits (ih [] .nil)
      | false =>
          rw [List.append_cons]
          apply ih
          intro other member
          rcases List.mem_append.mp member with member | member
          · exact solid other member
          · rw [List.mem_singleton.mp member]
            exact delimits

/-- The pieces of a split are runs. -/
theorem solid_of_mem_splitOnP {text run : List α}
    (member : run ∈ text.splitOnP delimiter) : Solid delimiter run := by
  induction text using runInduction delimiter with
  | single other solid =>
      rw [List.splitOnP_eq_singleton solid, List.mem_singleton] at member
      rw [member]
      exact solid
  | more other char rest solid delimits ih =>
      rw [List.splitOnP_append_cons_of_forall_mem solid char delimits] at member
      rcases List.mem_cons.mp member with same | later
      · rw [same]
        exact solid
      · exact ih later

/-- The list with a function applied to each of its runs, of which the first
has already been read in part. -/
def mapRunsFrom (delimiter : α → Bool) (f : List α → List α) (run : List α) :
    List α → List α
  | [] => f run
  | char :: rest =>
      if delimiter char then f run ++ char :: mapRunsFrom delimiter f [] rest
      else mapRunsFrom delimiter f (run ++ [char]) rest

/-- The list with a function applied to each of its runs. -/
def mapRuns (delimiter : α → Bool) (f : List α → List α) (text : List α) : List α :=
  mapRunsFrom delimiter f [] text

theorem mapRunsFrom_append {run : List α} (solid : Solid delimiter run)
    (before text : List α) :
    mapRunsFrom delimiter f before (run ++ text) =
      mapRunsFrom delimiter f (before ++ run) text := by
  induction run generalizing before with
  | nil => rw [List.nil_append, List.append_nil]
  | cons char run ih =>
      have delimits : delimiter char = false := solid char List.mem_cons_self
      have restSolid : Solid delimiter run :=
        fun other member => solid other (List.mem_cons_of_mem char member)
      rw [List.cons_append, mapRunsFrom, delimits, if_neg Bool.false_ne_true, ih restSolid,
        ← List.append_cons]

theorem mapRuns_single {run : List α} (solid : Solid delimiter run) :
    mapRuns delimiter f run = f run := by
  have runSolid := mapRunsFrom_append (f := f) solid [] []
  rw [List.append_nil, List.nil_append] at runSolid
  rw [mapRuns, runSolid, mapRunsFrom]

theorem mapRuns_more {run : List α} {char : α} (rest : List α)
    (solid : Solid delimiter run) (delimits : delimiter char = true) :
    mapRuns delimiter f (run ++ char :: rest) = f run ++ char :: mapRuns delimiter f rest := by
  rw [mapRuns, mapRunsFrom_append solid, List.nil_append, mapRunsFrom, if_pos delimits, mapRuns]

/-- Functions that agree on the runs of a list act alike on it. -/
theorem mapRuns_congr {text : List α}
    (agree : ∀ run ∈ text.splitOnP delimiter, f run = g run) :
    mapRuns delimiter f text = mapRuns delimiter g text := by
  induction text using runInduction delimiter with
  | single run solid =>
      rw [List.splitOnP_eq_singleton solid] at agree
      rw [mapRuns_single solid, mapRuns_single solid]
      exact agree run List.mem_cons_self
  | more run char rest solid delimits ih =>
      rw [List.splitOnP_append_cons_of_forall_mem solid char delimits] at agree
      rw [mapRuns_more rest solid delimits, mapRuns_more rest solid delimits,
        agree run List.mem_cons_self,
        ih (fun other member => agree other (List.mem_cons_of_mem run member))]

/-- Where the first function makes no delimiters, a second one finds its
results as runs. -/
theorem mapRuns_mapRuns (text : List α)
    (solid : ∀ run, Solid delimiter run → Solid delimiter (f run)) :
    mapRuns delimiter g (mapRuns delimiter f text) = mapRuns delimiter (g ∘ f) text := by
  induction text using runInduction delimiter with
  | single run runSolid =>
      rw [mapRuns_single runSolid, mapRuns_single (solid run runSolid), mapRuns_single runSolid,
        Function.comp_apply]
  | more run char rest runSolid delimits ih =>
      rw [mapRuns_more rest runSolid delimits, mapRuns_more _ (solid run runSolid) delimits,
        mapRuns_more rest runSolid delimits, ih, Function.comp_apply]

end AqjOs.Text
