import ApiContract.Command.Files
import ApiContract.Proofs.Except
import ApiContract.Proofs.Lists

namespace ApiContract.FileStore

variable {store next : FileStore} {place p q : Place} {path text : String}

def locate (store : FileStore) (path : String) : Except FileError Place := do
  let (place, names) ← store.start path
  names.foldlM store.enter place

structure Replaces (store next : FileStore) (place : Place) (text : String) : Prop where
  content : next.content? place = some (.text text)
  others : ∀ p, p ≠ place → next.content? p = store.content? p
  directories : ∀ p, next.isDirectory p = store.isDirectory p
  workingDirectory : next.workingDirectory = store.workingDirectory

theorem isDirectory_iff : store.isDirectory p = true ↔
    p <+: store.workingDirectory ∨ ∃ f ∈ store.files, p.length < f.1.length ∧ p <+: f.1 := by
  simp [isDirectory]

theorem isDirectory_of_prefix (h : store.isDirectory q = true) (hp : p <+: q) :
    store.isDirectory p = true := by
  rw [isDirectory_iff] at h ⊢
  rcases h with h | ⟨f, hf, hlength, hq⟩
  · exact .inl (hp.trans h)
  · exact .inr ⟨f, hf, hp.length_le.trans_lt hlength, hp.trans hq⟩

theorem isDirectory_set {directory : Place} {name : String} {content : FileContent}
    (h : store.isDirectory directory = true) (p : Place) :
    (store.set (directory ++ [name]) content).isDirectory p = store.isDirectory p := by
  rw [Bool.eq_iff_iff]
  constructor
  · intro hp
    rcases isDirectory_iff.1 hp with hp | ⟨f, hf, hlength, hp⟩
    · exact isDirectory_iff.2 (.inl hp)
    · rcases List.mem_cons.1 hf with rfl | hf
      · apply isDirectory_of_prefix h
        rcases List.prefix_concat_iff.1 hp with rfl | hp
        · exact absurd hlength (lt_irrefl _)
        · exact hp
      · exact isDirectory_iff.2 (.inr ⟨f, List.mem_of_mem_filter hf, hlength, hp⟩)
  · intro hp
    rcases isDirectory_iff.1 hp with hp | ⟨f, hf, hlength, hp⟩
    · exact isDirectory_iff.2 (.inl hp)
    · refine isDirectory_iff.2 (.inr ?_)
      by_cases hplace : f.1 = directory ++ [name]
      · rw [hplace] at hlength hp
        exact ⟨_, List.mem_cons_self, hlength, hp⟩
      · refine ⟨f, List.mem_cons_of_mem _ ?_, hlength, hp⟩
        exact List.mem_filter.2 ⟨hf, decide_eq_true hplace⟩

theorem replaces_set {directory : Place} {name : String} (h : store.isDirectory directory = true) :
    store.Replaces (store.set (directory ++ [name]) (.text text)) (directory ++ [name]) text where
  content := by simp [content?, set]
  others p hp := by
    have hkept : ∀ content : FileContent, decide (p ≠ directory ++ [name]) = true := fun _ =>
      decide_eq_true hp
    rw [content?, set, List.lookup_cons, beq_false_of_ne hp]
    exact lookup_filter hkept store.files
  directories := isDirectory_set h
  workingDirectory := rfl

structure Ordinary (name : String) : Prop where
  ne_dot : name ≠ "."
  ne_dots : name ≠ ".."
  size_le : name.utf8ByteSize ≤ maxNameBytes

theorem enter_eq_ok_iff {name : String} : store.enter p name = .ok q ↔
    store.isDirectory p = true ∧
      (name = "." ∧ q = p ∨ name = ".." ∧ q = p.dropLast ∨
        Ordinary name ∧ q = p ++ [name] ∧
          (store.isDirectory (p ++ [name]) = true ∨
            (store.content? (p ++ [name])).isSome = true)) := by
  unfold enter
  grind [Ordinary]

namespace Replaces

theorem isSome_content? (h : store.Replaces next place text)
    (hp : (store.content? p).isSome = true) : (next.content? p).isSome = true := by
  by_cases hplace : p = place
  · rw [hplace, h.content, Option.isSome_some]
  · rwa [h.others p hplace]

theorem enter (h : store.Replaces next place text) {name : String}
    (hp : store.enter p name = .ok q) : next.enter p name = .ok q := by
  rw [enter_eq_ok_iff] at hp ⊢
  rw [h.directories, h.directories]
  refine hp.imp_right (Or.imp_right (Or.imp_right ?_))
  rintro ⟨hname, hq, hfound⟩
  exact ⟨hname, hq, hfound.imp_right h.isSome_content?⟩

end Replaces

structure Target (store : FileStore) (path : String) (directory : Place) (name : String) :
    Prop where
  locate : ∃ start names, store.start path = .ok (start, names ++ [name]) ∧
    names.foldlM store.enter start = .ok directory
  isDirectory : store.isDirectory directory = true
  ordinary : Ordinary name
  notDirectory : store.isDirectory (directory ++ [name]) = false ∧ namesDirectory path = false

theorem exists_target_of_write (h : store.write path text = .ok next) :
    ∃ directory name, store.Target path directory name ∧
      next = store.set (directory ++ [name]) (.text text) := by
  obtain ⟨⟨start, names⟩, hstart, h⟩ := Except.bind_eq_ok.1 h
  obtain ⟨directory, hdirectory, h⟩ := Except.bind_eq_ok.1 h
  dsimp only at h
  split at h
  · cases h
  · rename_i hisDirectory
    obtain ⟨name, hname, hordinary, hnotDirectory, hnext⟩ :
        ∃ name, names.getLast? = some name ∧ Ordinary name ∧
          (store.isDirectory (directory ++ [name]) = false ∧ namesDirectory path = false) ∧
          next = store.set (directory ++ [name]) (.text text) := by
      cases hname : names.getLast? <;> grind [Ordinary]
    rw [← List.dropLast_append_getLast? name hname] at hstart
    exact ⟨directory, name, ⟨⟨start, _, hstart, hdirectory⟩, by simpa using hisDirectory, hordinary,
      hnotDirectory⟩, hnext⟩

theorem Target.locate_eq {directory : Place} {name : String} (h : store.Target path directory name)
    (hnext : store.Replaces next (directory ++ [name]) text) :
    next.locate path = .ok (directory ++ [name]) := by
  obtain ⟨start, names, hstart, hnames⟩ := h.locate
  have hnextStart : next.start path = .ok (start, names ++ [name]) := by
    rw [← hstart, FileStore.start, FileStore.start, hnext.workingDirectory]
  refine Except.bind_eq_ok.2 ⟨_, hnextStart, ?_⟩
  dsimp only
  rw [List.foldlM_append]
  have hdirectory := Except.foldlM_of_foldlM (fun _ _ _ => hnext.enter) hnames
  refine Except.bind_eq_ok.2 ⟨directory, hdirectory, ?_⟩
  have henter : next.enter directory name = .ok (directory ++ [name]) := by
    rw [enter_eq_ok_iff, hnext.directories, hnext.content]
    exact ⟨h.isDirectory, .inr (.inr ⟨h.ordinary, rfl, .inr rfl⟩)⟩
  rw [List.foldlM_cons, henter]
  rfl

theorem replaces_of_write (h : store.write path text = .ok next) :
    ∃ place, next.locate path = .ok place ∧ store.Replaces next place text ∧
      next.read path = .ok text := by
  obtain ⟨directory, name, htarget, rfl⟩ := exists_target_of_write h
  have hreplaces := @replaces_set store text directory name htarget.isDirectory
  have hlocate := htarget.locate_eq hreplaces
  refine ⟨_, hlocate, hreplaces, ?_⟩
  obtain ⟨⟨start, names⟩, hstart, hplace⟩ := Except.bind_eq_ok.1 hlocate
  refine Except.bind_eq_ok.2 ⟨_, hstart, Except.bind_eq_ok.2 ⟨_, hplace, ?_⟩⟩
  rw [hreplaces.directories, htarget.notDirectory.1, htarget.notDirectory.2, hreplaces.content]
  rfl

end ApiContract.FileStore
