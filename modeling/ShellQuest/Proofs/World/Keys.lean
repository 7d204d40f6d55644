/-
# Keys of new directories

Nothing bounds the search for the key of a new directory but the directories that there are: the forms
that are tried all differ, each that is passed over is the key of a directory, and no directory has two.
So the search ends after at most as many forms as there are directories, whatever the player has named
them, also where they bear the very forms that are tried (`createDirectory_first_free`).  The key is then
found, and for no other key anything has changed, since a directory is looked up by the keys and the
numbers of the directories alone.
-/
import ShellQuest.Proofs.World.Creation
import ShellQuest.World.Seed

namespace ShellQuest.World

variable {w : World} {parent : LocationId}

theorem findKey_eq (w : World) (key : String) :
    w.findKey key =
      ((w.locations.map fun l => (l.key, l.id)).find? fun entry => entry.1 == key).map Prod.snd := by
  rw [List.find?_map, Option.map_map]
  rfl

theorem findKey_insertLocation (w : World) (key name description : String) (parent : LocationId)
    (other : String) :
    (w.insertLocation key name description parent).findKey other =
      (w.findKey other).or (if other = key then some w.size else none) := by
  have hentries : (w.insertLocation key name description parent).locations.map (fun l => (l.key, l.id)) =
      w.locations.map (fun l => (l.key, l.id)) ++ [(key, w.size)] := by
    rw [insertLocation, map_modifyLocation]
    · simp
    · intro l
      rfl
  rw [findKey_eq, hentries, List.find?_append, Option.map_or, ← findKey_eq]
  congr 1
  by_cases h : other = key
  · simp [h]
  · simp [h, Ne.symm h]

/-- **A new directory gets the first free key.**  Of the forms that are tried one after the other, the name,
the parent's key with an underscore and the name, and this with 2, 3 and so on after it, at most as many
are taken as there are directories.  The first that is not becomes the key, by which the new directory is
found from then on, and whatever is looked up by another key is found as it was before. -/
theorem createDirectory_first_free (hp : parent < w.size) (name description : String) :
    let form := w.keyForm parent name
    let made := w.createDirectory parent name description
    ∃ n ≤ w.size,
      (∀ m < n, (w.findKey (form m)).isSome = true) ∧ w.findKey (form n) = none ∧
      made.2 = w.size ∧ made.1.size = w.size + 1 ∧ (made.1.location made.2).key = form n ∧
      made.1.findKey (form n) = some made.2 ∧
      ∀ other, other ≠ form n → made.1.findKey other = w.findKey other := by
  intro form made
  obtain ⟨n, hn, hkey, htaken, hfree⟩ := exists_uniqueKey_eq w parent name
  have hmade : made.1 = w.insertLocation (form n) name description parent := by
    show w.insertLocation (w.uniqueKey parent name) name description parent = _
    rw [hkey]
  refine ⟨n, hn, ?_, hfree, rfl, size_createDirectory w parent name description, ?_, ?_, ?_⟩
  · intro m hm
    exact Option.isSome_iff_ne_none.2 (htaken m hm)
  · show (made.1.location w.size).key = form n
    rw [hmade, location_insertLocation_self hp]
  · rw [hmade, findKey_insertLocation, hfree, if_pos rfl]
    rfl
  · intro other hother
    rw [hmade, findKey_insertLocation, if_neg hother, Option.or_none]

/-- Two directories of the player bear the forms that are tried for a third. -/
theorem createDirectory_first_free_of_namesakes :
    let first := (seeded.createDirectory LocationId.home "projects_documents" "").1
    let w := (first.createDirectory LocationId.home "projects_documents2" "").1
    LocationId.projects < w.size ∧
      w.uniqueKey LocationId.projects "documents" = "projects_documents3" ∧
      ∃ n ≤ w.size,
        (∀ m < n, (w.findKey (w.keyForm LocationId.projects "documents" m)).isSome = true) ∧
        w.findKey (w.keyForm LocationId.projects "documents" n) = none := by
  intro first w
  have hp : LocationId.projects < w.size := by decide +kernel
  obtain ⟨n, hn, htaken, hfree, -⟩ := createDirectory_first_free hp "documents" ""
  exact ⟨hp, by decide +kernel, n, hn, htaken, hfree⟩

end ShellQuest.World
