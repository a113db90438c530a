import PhraseRepair.Text.Basic

/-!
# Runs of steps

Sessions and clients are both driven by a list of steps. A run takes them in order and keeps every
outcome with the state after it. Each step is therefore taken in the state that the steps before it
have left, and nothing else of what went before has a part in it (`getElem?_of_run`).

The state that a list of steps leaves is a left fold over the steps. What every step keeps, all of
them keep: that is `List.foldlRecOn`, and needs no lemma here.
-/

namespace PhraseRepair

section Run

variable {σ α β : Type} {step : σ → α → β × σ} {run : σ → List α → List (β × σ)}

theorem getElem?_of_run (nil : ∀ s, run s [] = [])
    (cons : ∀ s a as, run s (a :: as) = step s a :: run (step s a).2 as) (s : σ) (as : List α)
    (i : Nat) :
    (run s as)[i]? = as[i]?.map (step ((as.take i).foldl (fun s a ↦ (step s a).2) s)) := by
  induction as generalizing s i with
  | nil => rw [nil]; rfl
  | cons a as ih =>
    rw [cons]
    cases i with
    | zero => rfl
    | succ i => exact ih (step s a).2 i

end Run

end PhraseRepair
