/-
# Texts of files

What the changes of files do to the texts, name by name.  A text goes by the name of its file, so a
file that is renamed or copied brings its text to the new name, if it has one, and otherwise leaves
there whatever the new name had.  That nothing is ever left there by a file that is gone is an
invariant: only a name that some directory lists has a text (`TextsListed`).
-/
import ShellQuest.Proofs.World.Archive

namespace ShellQuest

/-! ## Texts by name -/

namespace Contents

variable {c : Contents} {name : String}

theorem mem_names_of_get? (h : (c.get? name).isSome = true) : name ∈ c.names := by
  obtain ⟨text, htext⟩ := Option.isSome_iff_exists.1 h
  obtain ⟨first, rest, hentries, -⟩ := List.lookup_eq_some_iff.1 htext
  rw [names, hentries, List.map_append, List.map_cons]
  exact List.mem_append_right _ List.mem_cons_self

end Contents

namespace World

variable {w v : World} {i j parent : LocationId} {name other source target text description : String}

theorem get?_moveText (c : Contents) (source target other : String) :
    (moveText c source target).get? other =
      if other = target then (c.get? source).or (c.get? target)
      else if other = source then none else c.get? other := by
  rw [moveText]
  cases htext : c.get? source with
  | some text => simp
  | none =>
      by_cases htarget : other = target
      · simp [htarget]
      · by_cases hsource : other = source
        · subst hsource
          simp [htarget, htext]
        · simp [hsource, htarget]

theorem get?_copyText (c : Contents) (source target other : String) :
    (copyText c source target).get? other =
      if other = target then (c.get? source).or (c.get? target) else c.get? other := by
  rw [copyText]
  cases htext : c.get? source with
  | some text => simp
  | none =>
      by_cases htarget : other = target
      · simp [htarget]
      · simp [htarget]

theorem content_addFile (w : World) (i : LocationId) (name text other : String) :
    (w.addFile i name text).content other = if other = name then some text else w.content other :=
  Contents.get?_set w.contents name text other

theorem content_removeFile (h : w.removeFile i name = some v) (other : String) :
    v.content other = if other = name then none else w.content other := by
  rw [removeFile] at h
  split at h
  · cases h
    exact Contents.get?_erase w.contents name other
  · cases h

theorem content_renameFile (h : w.renameFile i source target = some v) (other : String) :
    v.content other =
      if other = target then (w.content source).or (w.content target)
      else if other = source then none else w.content other := by
  rw [renameFile] at h
  split at h
  · cases h
    exact get?_moveText w.contents source target other
  · cases h

theorem content_copyFile (w : World) (i : LocationId) (source target other : String) :
    (w.copyFile i source target).content other =
      if other = target then (w.content source).or (w.content target) else w.content other :=
  get?_copyText w.contents source target other

theorem content_relocateFile (h : w.relocateFile i j name = some v) (other : String) :
    v.content other = w.content other := by
  rw [content, content, contents_relocateFile h]

/-! ## No text without a file -/

def Lists (w : World) (name : String) : Prop := ∃ i, name ∈ (w.location i).items

/-- Every name that has a text is listed. -/
def TextsListed (w : World) : Prop := ∀ name, (w.content name).isSome = true → w.Lists name

namespace TextsListed

theorem seeded : TextsListed seeded := by
  intro name htext
  have hlisted : ∀ name ∈ seedContents.names, ∃ i < 5, name ∈ (World.seeded.location i).items := by
    decide
  obtain ⟨i, -, hitem⟩ := hlisted name (Contents.mem_names_of_get? htext)
  exact ⟨i, hitem⟩

theorem content_eq_none (hw : w.TextsListed) (h : ¬ w.Lists name) : w.content name = none := by
  by_contra hsome
  exact h (hw name (Option.isSome_iff_ne_none.2 hsome))

/-- A rewritten list leaves texts without files unless it lists the new ones and keeps its files that
have a text. -/
theorem of_relists {f : List String → List String} (hw : w.TextsListed) (h : v.Relists w i f)
    (hi : i < w.size)
    (hf : ∀ name, (v.content name).isSome = true → name ∉ f (w.location i).items →
      (w.content name).isSome = true ∧ name ∉ (w.location i).items) : v.TextsListed := by
  intro name htext
  by_cases hlisted : name ∈ f (w.location i).items
  · refine ⟨i, ?_⟩
    rw [h.items_self hi]
    exact hlisted
  · obtain ⟨hold, hgone⟩ := hf name htext hlisted
    obtain ⟨j, hj⟩ := hw name hold
    have hji : j ≠ i := by
      rintro rfl
      exact hgone hj
    refine ⟨j, ?_⟩
    rw [h.items_of_ne hji]
    exact hj

theorem addFile (hw : w.TextsListed) (hi : i < w.size) (name text : String) :
    (w.addFile i name text).TextsListed := by
  refine hw.of_relists (addFile_relists w i name text) hi fun other htext hother => ?_
  rw [mem_listItem, not_or] at hother
  rw [content_addFile, if_neg hother.2] at htext
  exact ⟨htext, hother.1⟩

theorem removeFile (hw : w.TextsListed) (h : w.removeFile i name = some v) : v.TextsListed := by
  have hi := lt_size_of_mem_items (mem_of_removeFile h)
  refine hw.of_relists (removeFile_relists h) hi fun other htext hother => ?_
  rw [content_removeFile h] at htext
  split at htext
  · cases htext
  · next hne => exact ⟨htext, fun hitem => hother ((List.mem_erase_of_ne hne).2 hitem)⟩

theorem renameFile (hw : w.TextsListed) (h : w.renameFile i source target = some v) :
    v.TextsListed := by
  have hi := lt_size_of_mem_items (mem_of_renameFile h)
  refine hw.of_relists (renameFile_relists h) hi fun other htext hother => ?_
  rw [List.mem_append, List.mem_filter, List.mem_singleton, not_or] at hother
  rw [content_renameFile h, if_neg hother.2] at htext
  split at htext
  · cases htext
  · next hne =>
    refine ⟨htext, fun hitem => hother.1 ⟨(List.mem_erase_of_ne hne).2 hitem, ?_⟩⟩
    simpa using hother.2

theorem copyFile (hw : w.TextsListed) (hi : i < w.size) (source target : String) :
    (w.copyFile i source target).TextsListed := by
  refine hw.of_relists (copyFile_relists w i source target) hi fun other htext hother => ?_
  rw [List.mem_append, List.mem_singleton, not_or] at hother
  rw [content_copyFile, if_neg hother.2] at htext
  exact ⟨htext, hother.1⟩

theorem relocateFile (hw : w.TextsListed) (hj : j < w.size)
    (h : w.relocateFile i j name = some v) : v.TextsListed := by
  obtain ⟨u, hfirst, hlast⟩ := relocateFile_relists h
  intro other htext
  by_cases hother : other = name
  · refine ⟨j, ?_⟩
    rw [hlast.items_self (by rwa [size_congr hfirst.directories])]
    exact mem_listItem.2 (.inr hother)
  · rw [content_relocateFile h] at htext
    obtain ⟨k, hk⟩ := hw other htext
    exact ⟨k, mem_items_relocateFile h hother hk⟩

theorem createDirectory (hw : w.TextsListed) (hp : parent < w.size) :
    (w.createDirectory parent name description).1.TextsListed := by
  intro other htext
  obtain ⟨i, hitem⟩ := hw other htext
  refine ⟨i, ?_⟩
  rw [items_createDirectory hp]
  exact hitem

theorem addFiles (hw : w.TextsListed) (hi : i < w.size) (files : List (String × String)) :
    (w.addFiles i files).TextsListed := by
  induction files generalizing w with
  | nil => exact hw
  | cons file files ih =>
      have hsize := size_congr (addFile_relists w i file.1 file.2).directories
      exact ih (hw.addFile hi file.1 file.2) (by rwa [hsize])

end TextsListed

/-! ## Renaming and copying to a new name -/

/-- `v` is `w` after the file `source` in the directory `i` was given the new name `target`. -/
structure Renames (w v : World) (i : LocationId) (source target : String) : Prop where
  items : (v.location i).items = (w.location i).items.filter (· != source) ++ [target]
  elsewhere : ∀ j, j ≠ i → (v.location j).items = (w.location j).items
  text : v.content target = w.content source
  gone : v.content source = none
  others : ∀ name, name ≠ source → name ≠ target → v.content name = w.content name
  directories : v.directories = w.directories
  archive : v.archive = w.archive

/-- `v` is `w` after the file `source` in the directory `i` was copied to the new name `target`. -/
structure Copies (w v : World) (i : LocationId) (source target : String) : Prop where
  items : (v.location i).items = (w.location i).items ++ [target]
  elsewhere : ∀ j, j ≠ i → (v.location j).items = (w.location j).items
  text : v.content target = w.content source
  others : ∀ name, name ≠ target → v.content name = w.content name
  directories : v.directories = w.directories
  archive : v.archive = w.archive

/-- Where no text is left over, a text goes to a new name as it is, also if there is none. -/
theorem TextsListed.or_content (hw : w.TextsListed) (htarget : ¬ w.Lists target) :
    (w.content source).or (w.content target) = w.content source := by
  rw [hw.content_eq_none htarget, Option.or_none]

theorem renames_renameFile (hw : w.TextsListed) (hnodup : (w.location i).items.Nodup)
    (htarget : ¬ w.Lists target) (h : w.renameFile i source target = some v) :
    w.Renames v i source target := by
  have hrelists := renameFile_relists h
  have hitem := mem_of_renameFile h
  have hne : source ≠ target := by
    rintro rfl
    exact htarget ⟨i, hitem⟩
  refine ⟨?_, fun _ => hrelists.items_of_ne, ?_, ?_, ?_, hrelists.directories, hrelists.archive⟩
  · have hfree : ((w.location i).items.erase source).filter (· != target) =
        (w.location i).items.erase source := by
      rw [List.filter_eq_self]
      intro other hother
      rw [bne_iff_ne]
      rintro rfl
      exact htarget ⟨i, List.mem_of_mem_erase hother⟩
    rw [hrelists.items_self (lt_size_of_mem_items hitem), hfree, hnodup.erase_eq_filter]
  · rw [content_renameFile h, if_pos rfl, hw.or_content htarget]
  · rw [content_renameFile h, if_neg hne, if_pos rfl]
  · intro other hsource hother
    rw [content_renameFile h, if_neg hother, if_neg hsource]

theorem copies_copyFile (hw : w.TextsListed) (hi : i < w.size) (htarget : ¬ w.Lists target) :
    w.Copies (w.copyFile i source target) i source target := by
  have hrelists := copyFile_relists w i source target
  refine ⟨hrelists.items_self hi, fun _ => hrelists.items_of_ne, ?_, ?_, hrelists.directories,
    hrelists.archive⟩
  · rw [content_copyFile, if_pos rfl, hw.or_content htarget]
  · intro other hother
    rw [content_copyFile, if_neg hother]

end World

end ShellQuest
