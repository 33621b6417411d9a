import Usbd.Runtime.Strings

/-!
# Object-store containers

The interface of the object-storage library the device is written against: a `Container` lists,
stores and hands out `Item`s, and an item reports its size, its ETag and its metadata and opens to
a stream.  The library and the services behind it are not part of the repository, so that a
container is a value with those calls over a state `σ` of its own, and what a proof may assume of it
is written down as laws.

`Faithful` containers keep what they are given.  `Current st item n o` reads: in state `st` the
handle `item` shows the object `o` stored under `n`.  A put makes the handle it returns current and
leaves handles on other names alone; nothing is said about an older handle on the same name.  A
`Plain` container moreover fails exactly when the stream it is given does.

`memContainer`, a store in memory, satisfies both.
-/

namespace Usbd

/-- A stream: the bytes it delivers, and the error behind them (`none` is `io.EOF`). -/
structure Reader where
  data : Bytes
  err : Option GoError
  deriving DecidableEq, Repr

/-- The metadata headers the wrappers use, and any other. -/
inductive MetaKey
  /-- `x-osbd-cmp-alg` -/
  | compressAlgo
  /-- `x-osbd-cmp-size` -/
  | compressSize
  /-- `x-osbd-crypt-alg` -/
  | encryptAlgo
  /-- `x-osbd-crypt-iv` -/
  | encryptIV
  /-- `x-osbd-crypt-size` -/
  | encryptSize
  | other (name : GoString)
  deriving DecidableEq, Repr

/-- A metadata value: a string, or something else. -/
inductive MetaVal
  | str (s : GoString)
  | other
  deriving DecidableEq, Repr

/-- An object's metadata, `map[string]interface{}`. -/
abbrev Metadata := MetaKey → Option MetaVal

/-- The nil map. -/
def Metadata.nil : Metadata := fun _ => none

/-- `stow.Item`.  An ETag is kept as the bytes of its string. -/
structure Item (σ : Type) where
  name : GoString
  size : σ → Except GoError ℤ
  openItem : σ → Except GoError Reader
  etag : σ → Except GoError Bytes
  metadata : σ → Except GoError Metadata

/-- `stow.Container`: its name, `Items` from a cursor on and `Put`. -/
structure Container (σ : Type) where
  name : GoString
  items : σ → GoString → GoString → ℕ → Except GoError (List (Item σ) × GoString)
  put : GoString → Reader → ℤ → Metadata → σ → Except GoError (Item σ) × σ

def cursorStart : GoString := []

def isCursorEnd (cursor : GoString) : Bool := cursor = []

def sizeUnknown : ℤ := -1

/-! ## What a container promises -/

/-- An object as it is stored. -/
structure Object where
  data : Bytes
  md : Metadata

/-- A container that stores bytes and metadata faithfully and lists what it has in one page. -/
structure Faithful {σ : Type} (c : Container σ) where
  objects : σ → GoString → Option Object
  Current : σ → Item σ → GoString → Object → Prop
  current_object : ∀ {st it n o}, Current st it n o → objects st n = some o
  current_name : ∀ {st it n o}, Current st it n o → it.name = n
  current_size : ∀ {st it n o}, Current st it n o → it.size st = .ok o.data.length
  current_open : ∀ {st it n o}, Current st it n o → it.openItem st = .ok ⟨o.data, none⟩
  current_metadata : ∀ {st it n o}, Current st it n o → it.metadata st = .ok o.md
  put_stores : ∀ {n data size md st it st'}, c.put n ⟨data, none⟩ size md st = (.ok it, st') →
    Current st' it n ⟨data, md⟩
  put_keeps : ∀ {n rdr size md st r st'}, c.put n rdr size md st = (r, st') →
    ∀ {it m o}, m ≠ n → Current st it m o → Current st' it m o
  put_objects : ∀ {n rdr size md st r st'}, c.put n rdr size md st = (r, st') →
    ∀ {m}, m ≠ n → objects st' m = objects st m
  listing : ∀ {st pre count names}, names.Nodup →
    (∀ n, n ∈ names ↔ pre <+: n ∧ objects st n ≠ none) → names.length ≤ count →
    ∃ its, c.items st pre cursorStart count = .ok (its, []) ∧ (its.map Item.name).Perm names ∧
      ∀ it ∈ its, ∃ o, Current st it it.name o

/-- The handle shows a stored object of these bytes. -/
structure Item.Shows {σ : Type} (item : Item σ) (st : σ) (n : GoString) (data : Bytes) : Prop where
  name_eq : item.name = n
  size_eq : item.size st = .ok data.length
  open_eq : item.openItem st = .ok ⟨data, none⟩

lemma Faithful.shows {σ : Type} {c : Container σ} (law : Faithful c) {st : σ} {it : Item σ}
    {n : GoString} {o : Object} (h : law.Current st it n o) : it.Shows st n o.data :=
  ⟨law.current_name h, law.current_size h, law.current_open h⟩

/-- A faithful container that fails only when the stream it is given does, or has not the length it
was told. -/
structure Plain {σ : Type} (c : Container σ) extends Faithful c where
  put_total : ∀ n data size md st, size = sizeUnknown ∨ size = data.length →
    ∃ it st', c.put n ⟨data, none⟩ size md st = (.ok it, st')
  put_broken : ∀ {n rdr size md st it st'}, rdr.err ≠ none →
    c.put n rdr size md st ≠ (.ok it, st')
  etag_total : ∀ {st it n o}, Current st it n o → ∃ tag, it.etag st = .ok tag

/-- The container with a put that refuses a stream of another length than announced. -/
def Container.sized {σ : Type} (c : Container σ) : Container σ where
  name := c.name
  items := c.items
  put n rdr size md st :=
    if size = sizeUnknown ∨ size = rdr.data.length then c.put n rdr size md st
    else (.error (.new "bad size"), st)

lemma Container.sized_put_eq {σ : Type} {c : Container σ} {n : GoString} {rdr : Reader} {size : ℤ}
    {md : Metadata} {st st' : σ} {r : Except GoError (Item σ)}
    (h : c.sized.put n rdr size md st = (r, st')) :
    c.put n rdr size md st = (r, st') ∨ r = .error (.new "bad size") ∧ st' = st := by
  simp only [sized] at h
  split_ifs at h
  · exact .inl h
  · obtain ⟨rfl, rfl⟩ := Prod.mk.inj h
    exact .inr ⟨rfl, rfl⟩

/-- A plain container that refuses such streams is plain. -/
def Plain.sized {σ : Type} {c : Container σ} (law : Plain c) : Plain c.sized where
  objects := law.objects
  Current := law.Current
  current_object := law.current_object
  current_name := law.current_name
  current_size := law.current_size
  current_open := law.current_open
  current_metadata := law.current_metadata
  put_stores h := by
    rcases Container.sized_put_eq h with h | ⟨h, -⟩
    · exact law.put_stores h
    · cases h
  put_keeps h it m o hne hc := by
    rcases Container.sized_put_eq h with h | ⟨-, rfl⟩
    · exact law.put_keeps h hne hc
    · exact hc
  put_objects h m hne := by
    rcases Container.sized_put_eq h with h | ⟨-, rfl⟩
    · exact law.put_objects h hne
    · rfl
  listing := law.listing
  put_total n data size md st hsize := by
    simp only [Container.sized, if_pos hsize]
    exact law.put_total n data size md st hsize
  put_broken hne h := by
    rcases Container.sized_put_eq h with h | ⟨h, -⟩
    · exact law.put_broken hne h
    · cases h
  etag_total := law.etag_total

/-! ## A container in memory -/

/-- Named objects, no name twice. -/
structure MemStore where
  entries : List (GoString × Object)
  nodup : (entries.map Prod.fst).Nodup

namespace MemStore

def empty : MemStore := ⟨[], List.nodup_nil⟩

/-- The object of a name. -/
def get (st : MemStore) (n : GoString) : Option Object :=
  (st.entries.find? fun e => e.1 == n).map Prod.snd

def set (st : MemStore) (n : GoString) (o : Object) : MemStore where
  entries := (n, o) :: st.entries.filter fun e => e.1 != n
  nodup := by
    rw [List.map_cons, List.nodup_cons]
    refine ⟨by simp, ?_⟩
    exact st.nodup.sublist ((List.filter_sublist).map _)

lemma get_set_self (st : MemStore) (n : GoString) (o : Object) : (st.set n o).get n = some o := by
  simp [get, set]

lemma get_set_of_ne (st : MemStore) {n m : GoString} (o : Object) (h : m ≠ n) :
    (st.set n o).get m = st.get m := by
  have hfind : (st.entries.filter fun e => e.1 != n).find? (fun e => e.1 == m) =
      st.entries.find? fun e => e.1 == m := by
    rw [List.find?_filter]
    congr 1
    funext e
    by_cases he : e.1 = m
    · simp [he, h]
    · simp [he]
  simp [get, set, h.symm, hfind]

lemma get_ne_none_iff (st : MemStore) (n : GoString) :
    st.get n ≠ none ↔ n ∈ st.entries.map Prod.fst := by
  simp [get, List.find?_eq_none]

end MemStore

/-- The handle on a name.  An object's ETag is its contents. -/
def memItem (n : GoString) : Item MemStore :=
  let show_ {α : Type} (f : Object → α) (st : MemStore) : Except GoError α :=
    match st.get n with
    | some o => .ok (f o)
    | none => .error osErrNotExist
  { name := n
    size := show_ fun o => (o.data.length : ℤ)
    openItem := show_ fun o => ⟨o.data, none⟩
    etag := show_ fun o => o.data
    metadata := show_ fun o => o.md }

/-- A container in memory.  A put whose stream breaks off fails and stores nothing. -/
def memContainer (name : GoString) : Container MemStore where
  name := name
  items st pre _ count :=
    let names := (st.entries.map Prod.fst).filter fun n => pre.isPrefixOf n
    .ok ((names.take count).map memItem, if names.length ≤ count then [] else ['.'])
  put n rdr _ md st :=
    match rdr.err with
    | some e => (.error e, st)
    | none => (.ok (memItem n), st.set n ⟨rdr.data, md⟩)

/-- The container in memory is plain. -/
def memPlain (name : GoString) : Plain (memContainer name) where
  objects := MemStore.get
  Current st it n o := it = memItem n ∧ st.get n = some o
  current_object h := h.2
  current_name h := by
    rw [h.1]
    rfl
  current_size h := by simp [h.1, memItem, h.2]
  current_open h := by simp [h.1, memItem, h.2]
  current_metadata h := by simp [h.1, memItem, h.2]
  put_stores h := by
    obtain ⟨h1, rfl⟩ := Prod.mk.inj h
    exact ⟨(Except.ok.inj h1).symm, MemStore.get_set_self _ _ _⟩
  put_keeps {n rdr size md st r st'} h it m o hne hc := by
    refine ⟨hc.1, ?_⟩
    cases hr : rdr.err with
    | some e =>
      simp only [memContainer, hr, Prod.mk.injEq] at h
      rw [← h.2, hc.2]
    | none =>
      simp only [memContainer, hr, Prod.mk.injEq] at h
      rw [← h.2, MemStore.get_set_of_ne _ _ hne, hc.2]
  put_objects {n rdr size md st r st'} h m hne := by
    cases hr : rdr.err with
    | some e =>
      simp only [memContainer, hr, Prod.mk.injEq] at h
      rw [← h.2]
    | none =>
      simp only [memContainer, hr, Prod.mk.injEq] at h
      rw [← h.2, MemStore.get_set_of_ne _ _ hne]
  listing {st pre count names} hnd hmem hcount := by
    have hperm : ((st.entries.map Prod.fst).filter fun n => pre.isPrefixOf n).Perm names := by
      refine (List.perm_ext_iff_of_nodup (st.nodup.filter _) hnd).mpr fun n => ?_
      rw [List.mem_filter, hmem, MemStore.get_ne_none_iff, List.isPrefixOf_iff_prefix, and_comm]
    have hlen : ((st.entries.map Prod.fst).filter fun n => pre.isPrefixOf n).length ≤ count := by
      rw [hperm.length_eq]
      exact hcount
    refine ⟨((st.entries.map Prod.fst).filter fun n => pre.isPrefixOf n).map memItem, ?_, ?_, ?_⟩
    · simp only [memContainer, if_pos hlen, List.take_of_length_le hlen]
    · rw [List.map_map]
      have hname : (Item.name ∘ memItem) = id := rfl
      rw [hname, List.map_id]
      exact hperm
    · intro it hit
      obtain ⟨n, hn, rfl⟩ := List.mem_map.mp hit
      have hget : st.get n ≠ none := (hmem n |>.mp (hperm.mem_iff.mp hn)).2
      obtain ⟨o, ho⟩ := Option.ne_none_iff_exists'.mp hget
      exact ⟨o, rfl, ho⟩
  put_total _ _ _ _ _ _ := ⟨_, _, rfl⟩
  put_broken {n rdr size md st it st'} hne h := by
    obtain ⟨e, he⟩ := Option.ne_none_iff_exists'.mp hne
    simp [memContainer, he] at h
  etag_total h := by
    rw [h.1]
    simp [memItem, h.2]

end Usbd
