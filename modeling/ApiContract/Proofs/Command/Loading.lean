import ApiContract.Command.Run
import Mathlib

namespace ApiContract

namespace FileStore

def config? (store : FileStore) : Option String → Option Config
  | none => some {}
  | some path =>
    (store.read path).toOption.bind fun text =>
      if Text.allBlank text then some {} else Config.parse? text

def document? (store : FileStore) (path : String) : Option Json :=
  (store.read path).toOption.bind (DocumentFormat.ofPath path).parse?

def load? (store : FileStore) (decode : Json → Decoded α) (path : String) : Option α :=
  (store.document? path).bind fun value => (decode value).toOption

@[simp] theorem load?_ok (store : FileStore) (path : String) :
    store.load? .ok path = store.document? path := by
  rw [load?]
  exact Option.bind_fun_some _

section Yields

variable {store : FileStore} {α β : Type}

/-- Hoare triple: run on `store`, the computation ends with a result and files that satisfy
`post`. -/
def Yields (store : FileStore) (computation : StateM FileStore α)
    (post : α → FileStore → Prop) : Prop :=
  post (computation.run store).1 (computation.run store).2

theorem Yields.pure {a : α} {post : α → FileStore → Prop} (h : post a store) :
    store.Yields (Pure.pure a) post :=
  h

theorem Yields.bind {computation : StateM FileStore α} {next : α → StateM FileStore β}
    {middle : α → FileStore → Prop} {post : β → FileStore → Prop}
    (h : store.Yields computation middle)
    (hnext : ∀ a s, middle a s → s.Yields (next a) post) :
    store.Yields (computation >>= next) post := by
  rw [Yields, StateT.run_bind]
  exact hnext _ _ h

def Finds (store : FileStore) (computation : StateM FileStore α) (post : α → Prop) : Prop :=
  post (computation.run store).1 ∧ (computation.run store).2 = store

theorem Finds.yields {computation : StateM FileStore α} {post : α → Prop}
    (h : store.Finds computation post) :
    store.Yields computation fun a after => post a ∧ after = store :=
  h

theorem Finds.pure {a : α} {post : α → Prop} (h : post a) : store.Finds (Pure.pure a) post :=
  ⟨h, rfl⟩

theorem finds_read (path : String) : store.Finds (FileAccess.read path) (· = store.read path) :=
  ⟨rfl, rfl⟩

theorem Finds.bind_yields {computation : StateM FileStore α} {next : α → StateM FileStore β}
    {middle : α → Prop} {post : β → FileStore → Prop} (h : store.Finds computation middle)
    (hnext : ∀ a, middle a → store.Yields (next a) post) :
    store.Yields (computation >>= next) post := by
  refine h.yields.bind ?_
  rintro a _ ⟨ha, rfl⟩
  exact hnext a ha

theorem Finds.bind {computation : StateM FileStore α} {next : α → StateM FileStore β}
    {middle : α → Prop} {post : β → Prop} (h : store.Finds computation middle)
    (hnext : ∀ a, middle a → store.Finds (next a) post) :
    store.Finds (computation >>= next) post :=
  h.bind_yields fun a ha => (hnext a ha).yields

end Yields

end FileStore

open FileStore

variable {store : FileStore}

theorem Config.finds_load (path : Option String) :
    store.Finds (Config.load path) fun loaded => loaded.2.toOption = store.config? path := by
  cases path with
  | none => exact .pure rfl
  | some path =>
    refine (finds_read path).bind ?_
    rintro _ rfl
    cases hread : store.read path with
    | error e => exact .pure (by simp [config?, hread, Except.toOption])
    | ok text =>
      dsimp only
      split
      · rename_i hblank
        exact .pure (by simp [config?, hread, hblank, Except.toOption])
      · rename_i hblank
        split
        · rename_i hparse
          exact .pure (by simp [config?, hread, hblank, hparse, Except.toOption])
        · rename_i hparse
          exact .pure (by simp [config?, hread, hblank, hparse, Except.toOption])

namespace Command

theorem finds_readDocument (path : String) :
    store.Finds (readDocument path) fun found => found.toOption = store.document? path := by
  refine (finds_read path).bind ?_
  rintro _ rfl
  cases hread : store.read path with
  | error e => exact .pure (by simp [document?, hread, Except.toOption])
  | ok text =>
    dsimp only
    split
    · rename_i hparse
      exact .pure (by simp [document?, hread, hparse, Except.toOption])
    · rename_i hparse
      exact .pure (by simp [document?, hread, hparse, Except.toOption])

theorem finds_load {α : Type} (path what : String) (decode : Json → Decoded α) :
    store.Finds (load path what decode) fun loaded =>
      loaded.toOption = store.load? decode path := by
  refine (finds_readDocument path).bind fun found hfound => .pure ?_
  rw [load?, ← hfound]
  cases found with
  | error e => rfl
  | ok value =>
    cases h : decode value <;> simp [Except.bind, Except.mapError, Except.toOption, h]

end Command

end ApiContract
