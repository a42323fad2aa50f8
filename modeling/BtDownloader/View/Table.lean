import BtDownloader.View.Controller

set_option autoImplicit false

/-! # The table view

* `consistentLoad_iff`: which loads keep the table view and the list of models in step.
-/

namespace BtDownloader

open Program

variable {c c' : Controller}

/-- The model that `tableView:cellForRowAtIndexPath:` shows. -/
def modelForRow (row : Nat) : ViewHandler TorrentModel := do
  match (← get).model? row with
  | some (_, model) => pure model
  | none => throw .objectAtIndex

/-- Every insertion meets the rule of the table view; afterwards the table view knows as many
rows as there are models, and the data source has a model for each of them. -/
def Controller.ConsistentLoad (contents : Except Text (List (Text × Int)))
    (cellForRow : Nat → Nat) (c : Controller) : Prop :=
  ∃ c', loadTorrents contents cellForRow c = .ok () c' ∧ c'.tableRows = c'.numberOfRows ∧
    ∀ row < c'.tableRows, Returns (modelForRow row) c'

/-- Every row of a list that was loaded has its model. -/
theorem modelForRow_list {files : List (Text × Int)} {cellForRow : Nat → Nat} {row : Nat}
    (hrow : row < files.length) : Returns (modelForRow row) (c.list files cellForRow) := by
  have hmodel : ∃ im, (c.list files cellForRow).model? row = some im := by
    unfold Controller.model? Controller.list
    simp [hrow]
  obtain ⟨im, him⟩ := hmodel
  refine ⟨im.2, c.list files cellForRow, ?_⟩
  rw [modelForRow, view_get_bind, him]
  rfl

theorem tableRows_list (files : List (Text × Int)) (cellForRow : Nat → Nat) (c : Controller) :
    (c.list files cellForRow).tableRows = (c.list files cellForRow).numberOfRows := by
  unfold Controller.list Controller.numberOfRows
  simp

/-- **Which loads keep the table view and the list in step**: those of a table view that knows of
no rows, and those of an empty folder. -/
theorem consistentLoad_iff {contents : Except Text (List (Text × Int))} {cellForRow : Nat → Nat} :
    c.ConsistentLoad contents cellForRow ↔ c.tableRows = 0 ∨ contents = .ok [] := by
  cases contents with
  | error error =>
      -- a folder that cannot be read empties the list and inserts no row
      have hload := loadTorrents_error error cellForRow c
      constructor
      · rintro ⟨c', hx, hrows, -⟩
        rw [hload] at hx
        cases hx
        exact Or.inl hrows
      · intro h
        have hnone : c.emptied.tableRows = 0 := by
          rcases h with hnone | hfiles
          · exact hnone
          · cases hfiles
        refine ⟨c.emptied, hload, hnone, fun row hrow => ?_⟩
        rw [hnone] at hrow
        exact absurd hrow (Nat.not_lt_zero row)
  | ok files =>
      rw [Except.ok.injEq]
      constructor
      · rintro ⟨c', hx, -, -⟩
        exact (loadTorrents_files_ok.mp hx).1
      · intro h
        exact ⟨_, loadTorrents_files_ok.mpr ⟨h, rfl⟩, tableRows_list files cellForRow c,
          fun row hrow => modelForRow_list hrow⟩

/-- The folder has one file when the view appears; then a magnet link is imported. -/
theorem not_consistentLoad_import :
    ¬ ∀ (first contents : Except Text (List (Text × Int))) (cellForRow : Nat → Nat)
      (c : Controller), loadTorrents first cellForRow {} = .ok () c →
        c.ConsistentLoad contents cellForRow := by
  intro hall
  let films : List (Text × Int) := [("b.torrent".toList, 40)]
  have hfirst : loadTorrents (.ok films) id {} = .ok () (({} : Controller).list films id) :=
    loadTorrents_files_ok.mpr ⟨Or.inl rfl, rfl⟩
  obtain ⟨c', hx, -⟩ :=
    hall (.ok films) (.ok [("a.torrent".toList, 12), ("b.torrent".toList, 40)]) id _ hfirst
  rcases (loadTorrents_files_ok.mp hx).1 with hrows | hfiles
  · exact absurd hrows (by decide)
  · exact absurd hfiles (by decide)

end BtDownloader
