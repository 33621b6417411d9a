import Usbd.Objstore.SegmentTable

/-!
# Finding the segments again

`loadSegments` asks the container once for the items under the device's prefix, one more than the
device has segments, and attaches each item to the segment its name parses to.

* The check of the parsed id lets `count` itself through, one past the last segment.  A listing
  panics exactly when the first of its names that is no id of a segment parses to `count`; any other
  listing gives an error or the right segments (`loadSegments_exact_iff`).
* The listing is taken from one page.  A store that needs two makes `loadSegments` fail, however
  few segments there are (`paged_listing_iff`).
-/

namespace Usbd

open ListMemory Prog

variable {σ : Type} {sp : StoreParams σ} {w : World σ}

/-! ## Attaching items -/

section Attaching

variable {pre : GoString} {count : ℕ} {items front : List (Item σ)} {segments : List (Segment σ)}

/-- The first name of a listing that is no id of a segment is the number of the segments. -/
def Overruns (pre : GoString) (count : ℕ) (items : List (Item σ)) : Prop :=
  ∃ front item rest, items = front ++ item :: rest ∧ (∀ it ∈ front, it.Fits pre count) ∧
    parseSegID pre item.name = some (count : ℤ)

/-- An item whose name is the number of the segments is attached to a segment that is not there. -/
lemma attachItems_of_overruns (hlen : segments.length = count) (h : Overruns pre count items) :
    attachItems pre count items segments = .error .panic := by
  obtain ⟨front, item, rest, rfl, hfits, hparse⟩ := h
  have hrange : ¬ ((count : ℤ) < 0 ∨ (count : ℤ) > count) := by omega
  have hnone : (attachAll pre front segments)[count]? = none := by
    rw [getElem?_attachAll, List.getElem?_eq_none hlen.le, Option.map_none]
  rw [attachItems_append hlen hfits, attachItems, hparse]
  simp only [if_neg hrange, Int.toNat_natCast, hnone]

/-- A listing has names of segments only, or there is a first that is not one. -/
lemma fits_or_exists_first (pre : GoString) (count : ℕ) (items : List (Item σ)) :
    (∀ it ∈ items, it.Fits pre count) ∨ ∃ front item rest, items = front ++ item :: rest ∧
      (∀ it ∈ front, it.Fits pre count) ∧ ¬ item.Fits pre count := by
  induction items with
  | nil => exact .inl (by simp)
  | cons item items ih =>
    by_cases hitem : item.Fits pre count
    · rcases ih with hall | ⟨front, first, rest, rfl, hfits, hfirst⟩
      · exact .inl (List.forall_mem_cons.mpr ⟨hitem, hall⟩)
      · exact .inr ⟨item :: front, first, rest, rfl,
          List.forall_mem_cons.mpr ⟨hitem, hfits⟩, hfirst⟩
    · exact .inr ⟨[], item, items, rfl, by simp, hitem⟩

/-- **What comes of a listing**: a panic if it overruns the segments; and otherwise an error, or
each segment with the last item that is for it. -/
lemma attachItems_outcome (pre : GoString) (items : List (Item σ))
    (hlen : segments.length = count) :
    Overruns pre count items ∧ attachItems pre count items segments = .error .panic ∨
    ¬ Overruns pre count items ∧
      ((∃ e, attachItems pre count items segments = .ok (.error e)) ∨
        attachItems pre count items segments = .ok (.ok (attachAll pre items segments))) := by
  by_cases hover : Overruns pre count items
  · exact .inl ⟨hover, attachItems_of_overruns hlen hover⟩
  refine .inr ⟨hover, ?_⟩
  rcases fits_or_exists_first pre count items with hall | ⟨front, item, rest, rfl, hfits, hitem⟩
  · right
    have happend := attachItems_append hlen hall []
    rwa [List.append_nil] at happend
  · left
    rw [attachItems_append hlen hfits, attachItems]
    cases hparse : parseSegID pre item.name with
    | none => exact ⟨_, rfl⟩
    | some segID =>
      have hrange : segID < 0 ∨ segID > count := by
        -- an id in the range that is no segment's is the number of the segments
        by_contra hin
        have hcount : segID = count := by
          by_contra hne
          refine hitem ⟨segID.toNat, by omega, ?_⟩
          rw [hparse, Int.toNat_of_nonneg (by omega)]
        exact hover ⟨front, item, rest, rfl, hfits, hcount ▸ hparse⟩
      simp only [if_pos hrange]
      exact ⟨_, rfl⟩

end Attaching

/-! ## One page -/

section OnePage

variable {items : List (Item σ)} {totalBytes : ℕ}

/-- The segments of a listing, each with an item exactly when one is listed for it. -/
structure Attached (sp : StoreParams σ) (count : ℕ) (items : List (Item σ))
    (segments : List (Segment σ)) : Prop where
  length_eq : segments.length = count
  exact : ∀ (i : ℕ) (seg : Segment σ), segments[i]? = some seg → seg.ID = i ∧
    (seg.remoteItem ≠ none ↔
      ∃ item ∈ items, parseSegID sp.itemPrefix item.name = some (i : ℤ)) ∧
    ∀ item, seg.remoteItem = some item →
      item ∈ items ∧ parseSegID sp.itemPrefix item.name = some (i : ℤ)

lemma attached_attachAll (sp : StoreParams σ) (count : ℕ) (items : List (Item σ)) :
    Attached sp count items
      (attachAll sp.itemPrefix items ((List.range count).map Segment.new)) := by
  refine ⟨by simp [attachAll], fun i seg hseg => ?_⟩
  obtain ⟨-, rfl⟩ := eq_of_getElem?_attachAll_new hseg
  exact ⟨rfl, itemFor_ne_none_iff, fun item h => mem_of_itemFor h⟩

/-- A listing that does not overrun gives an error or the right segments. -/
lemma loadSegments_attached (hpos : 1 ≤ sp.segmentBytes)
    (hitems : sp.container.items w.store sp.itemPrefix cursorStart
      (totalBytes / sp.segmentBytes + 1) = .ok (items, []))
    (hover : items.length ≤ totalBytes / sp.segmentBytes →
      ¬ Overruns sp.itemPrefix (totalBytes / sp.segmentBytes) items) :
    Returns (loadSegments sp totalBytes) w fun r _ => ∀ segments, r = .ok segments →
      Attached sp (totalBytes / sp.segmentBytes) items segments := by
  have hload := loadSegments_of_items hpos hitems
  split_ifs at hload with hmany
  · exact ⟨_, _, hload, by simp⟩
  · have hlen : ((List.range (totalBytes / sp.segmentBytes)).map
        (Segment.new : ℕ → Segment σ)).length = totalBytes / sp.segmentBytes := by simp
    rcases attachItems_outcome sp.itemPrefix items hlen with ⟨hbad, -⟩ | ⟨-, ⟨e, he⟩ | hall⟩
    · exact absurd hbad (hover (by omega))
    · rw [he] at hload
      exact ⟨_, _, hload, by simp⟩
    · rw [hall] at hload
      refine ⟨_, _, hload, fun segments hsegments => ?_⟩
      obtain rfl := Except.ok.inj hsegments
      exact attached_attachAll sp _ items

/-- The names of the objects of some segments. -/
def Names (sp : StoreParams σ) (S : Finset ℕ) (items : List (Item σ)) : Prop :=
  (items.map Item.name).Nodup ∧
    ∀ n, n ∈ items.map Item.name ↔ ∃ i ∈ S, n = sp.itemName (itoa i)

/-- The items of a set of segments: each of them has its own, and the others none. -/
def HasItems (sp : StoreParams σ) (S : Finset ℕ) (items : List (Item σ)) (count : ℕ)
    (segments : List (Segment σ)) : Prop :=
  segments.length = count ∧ ∀ (i : ℕ) (seg : Segment σ), segments[i]? = some seg →
    (i ∈ S → ∃ item ∈ items, item.name = sp.itemName (itoa i) ∧ seg.remoteItem = some item) ∧
    (i ∉ S → seg.remoteItem = none)

variable {S : Finset ℕ} {count : ℕ}

lemma Names.length_le (h : Names sp S items) (hS : ∀ i ∈ S, i < count) : items.length ≤ count := by
  classical
  have hsub : (items.map Item.name).toFinset ⊆ S.image fun i => sp.itemName (itoa i) := by
    intro n hn
    obtain ⟨i, hi, rfl⟩ := (h.2 n).mp (List.mem_toFinset.mp hn)
    exact Finset.mem_image_of_mem _ hi
  calc items.length = (items.map Item.name).toFinset.card := by
        rw [List.toFinset_card_of_nodup h.1, List.length_map]
    _ ≤ (S.image fun i => sp.itemName (itoa i)).card := Finset.card_le_card hsub
    _ ≤ S.card := Finset.card_image_le
    _ ≤ (Finset.range count).card := Finset.card_le_card fun i hi => Finset.mem_range.mpr (hS i hi)
    _ = count := Finset.card_range count

lemma Names.parse (h : Names sp S items) (hS : ∀ i ∈ S, i < count) (hmax : count ≤ maxOffset)
    {item : Item σ} (hitem : item ∈ items) :
    ∃ i ∈ S, item.name = sp.itemName (itoa i) ∧
      parseSegID sp.itemPrefix item.name = some (i : ℤ) := by
  obtain ⟨i, hi, hname⟩ := (h.2 item.name).mp (List.mem_map_of_mem hitem)
  exact ⟨i, hi, hname, hname ▸ parseSegID_itemName (by have := hS i hi; omega)⟩

/-- The listing of the objects of some segments is accepted and gives each of them its item. -/
lemma loadSegments_of_names (hpos : 1 ≤ sp.segmentBytes) (hmax : totalBytes ≤ maxOffset)
    (hS : ∀ i ∈ S, i < totalBytes / sp.segmentBytes) (hnames : Names sp S items)
    (hitems : sp.container.items w.store sp.itemPrefix cursorStart
      (totalBytes / sp.segmentBytes + 1) = .ok (items, [])) :
    Returns (loadSegments sp totalBytes) w fun r _ => ∃ segments, r = .ok segments ∧
      HasItems sp S items (totalBytes / sp.segmentBytes) segments := by
  have hcount : totalBytes / sp.segmentBytes ≤ maxOffset := (Nat.div_le_self _ _).trans hmax
  have hload := loadSegments_of_items hpos hitems
  have hlen : ((List.range (totalBytes / sp.segmentBytes)).map
      (Segment.new : ℕ → Segment σ)).length = totalBytes / sp.segmentBytes := by simp
  have hfits : ∀ it ∈ items, it.Fits sp.itemPrefix (totalBytes / sp.segmentBytes) := by
    intro it hit
    obtain ⟨i, hi, -, hparse⟩ := hnames.parse hS hcount hit
    exact ⟨i, hS i hi, hparse⟩
  have happend := attachItems_append hlen hfits []
  rw [List.append_nil] at happend
  rw [if_neg (hnames.length_le hS).not_gt, happend] at hload
  refine ⟨_, _, hload, _, rfl, ?_⟩
  obtain ⟨hlength, hexact⟩ := attached_attachAll sp (totalBytes / sp.segmentBytes) items
  refine ⟨hlength, fun i seg hseg => ?_⟩
  obtain ⟨-, hiff, hown⟩ := hexact i seg hseg
  have hname : ∀ item ∈ items, parseSegID sp.itemPrefix item.name = some (i : ℤ) →
      i ∈ S ∧ item.name = sp.itemName (itoa i) := by
    intro item hitem hparse
    obtain ⟨j, hj, hname, hparse'⟩ := hnames.parse hS hcount hitem
    obtain rfl : i = j := by
      rw [hparse] at hparse'
      simpa using hparse'
    exact ⟨hj, hname⟩
  constructor
  · intro hi
    obtain ⟨item, hitem, hn⟩ := List.mem_map.mp ((hnames.2 _).mpr ⟨i, hi, rfl⟩)
    have hlt := hS i hi
    have hparse : parseSegID sp.itemPrefix item.name = some (i : ℤ) :=
      hn ▸ parseSegID_itemName (by omega)
    obtain ⟨item', hitem'⟩ := Option.ne_none_iff_exists'.mp (hiff.mpr ⟨item, hitem, hparse⟩)
    obtain ⟨hmem, hparse'⟩ := hown item' hitem'
    exact ⟨item', hmem, (hname item' hmem hparse').2, hitem'⟩
  · intro hi
    by_contra hsome
    obtain ⟨item, hitem, hparse⟩ := hiff.mp hsome
    exact hi (hname item hitem hparse).1

/-- **Loading a listing.**  With any names under the prefix in one page, `loadSegments` returns, an
error or segments that have an item exactly where the listing has one for them, if and only if the
listing has too many items or does not overrun the segments: its first name that is no id of a
segment, if there is one, is not their number.  And the objects of any set of segments are accepted,
each segment getting its own. -/
theorem loadSegments_exact_iff (sp : StoreParams σ) (w : World σ) (totalBytes : ℕ)
    (hpos : 1 ≤ sp.segmentBytes) (hmax : totalBytes ≤ maxOffset) (items : List (Item σ))
    (hitems : sp.container.items w.store sp.itemPrefix cursorStart
      (totalBytes / sp.segmentBytes + 1) = .ok (items, [])) :
    (Returns (loadSegments sp totalBytes) w (fun r _ => ∀ segments, r = .ok segments →
        Attached sp (totalBytes / sp.segmentBytes) items segments) ↔
      (items.length ≤ totalBytes / sp.segmentBytes →
        ¬ Overruns sp.itemPrefix (totalBytes / sp.segmentBytes) items)) ∧
    ∀ S : Finset ℕ, (∀ i ∈ S, i < totalBytes / sp.segmentBytes) → Names sp S items →
      Returns (loadSegments sp totalBytes) w fun r _ => ∃ segments, r = .ok segments ∧
        HasItems sp S items (totalBytes / sp.segmentBytes) segments := by
  refine ⟨⟨?_, loadSegments_attached hpos hitems⟩, fun S hS hnames => ?_⟩
  · rintro ⟨r, w', hrun, -⟩ hfew hover
    rw [loadSegments_of_items hpos hitems, if_neg hfew.not_gt,
      attachItems_of_overruns (by simp) hover] at hrun
    cases hrun
  · exact loadSegments_of_names hpos hmax hS hnames hitems

/-- A world in which the container has one object. -/
def storing (n : GoString) : World MemStore :=
  { ObjRun.emptyWorld with store := MemStore.empty.set n ⟨[1], .nil⟩ }

/-- The first segment of two has been uploaded. -/
theorem loadSegments_exact_iff_first :
    (Returns (loadSegments (quotaOne quietEnv) 2) (storing ((quotaOne quietEnv).itemName ['0']))
      (fun r _ => ∀ segments, r = .ok segments → Attached (quotaOne quietEnv) 2
        [memItem ((quotaOne quietEnv).itemName ['0'])] segments) ↔
      ([memItem ((quotaOne quietEnv).itemName ['0'])].length ≤ 2 →
        ¬ Overruns (quotaOne quietEnv).itemPrefix 2
          [memItem ((quotaOne quietEnv).itemName ['0'])])) ∧
    Returns (loadSegments (quotaOne quietEnv) 2) (storing ((quotaOne quietEnv).itemName ['0']))
      (fun r _ => ∃ segments, r = .ok segments ∧ HasItems (quotaOne quietEnv) {0}
        [memItem ((quotaOne quietEnv).itemName ['0'])] 2 segments) := by
  obtain ⟨hiff, hnames⟩ := loadSegments_exact_iff (quotaOne quietEnv)
    (storing ((quotaOne quietEnv).itemName ['0'])) 2 (by decide) (by decide)
    [memItem ((quotaOne quietEnv).itemName ['0'])] rfl
  refine ⟨hiff, hnames {0} (by decide) ⟨by simp, fun n => ?_⟩⟩
  simp [memItem, itoa, formatUint, digitsLoop, digitChar]

/-- A device of three segments, the last of which has been uploaded, opened with two. -/
theorem loadSegments_panics :
    loadSegments (quotaOne quietEnv) 2 (storing ((quotaOne quietEnv).itemName (itoa 2))) =
      .error .panic := rfl

end OnePage

/-! ## Pages -/

/-- A store that lists its items in pages, of at least one item while there is one, at most as many
as it is asked for, and with the end cursor only when nothing is left behind them. -/
structure Pages (c : Container σ) (st : σ) (pre : GoString) (all : List (Item σ)) where
  rest : GoString → List (Item σ)
  rest_start : rest cursorStart = all
  page : ∀ cursor n, 1 ≤ n → ∃ items next, c.items st pre cursor n = .ok (items, next) ∧
    items.length ≤ n ∧ (rest cursor ≠ [] → items ≠ []) ∧
    rest cursor = items ++ if isCursorEnd next then [] else rest next

section Paging

variable {totalBytes : ℕ} {S : Finset ℕ} {all : List (Item σ)}

/-- A page that is not the last is an error, whatever is in it. -/
lemma loadSegments_of_next (hpos : 1 ≤ sp.segmentBytes) {items : List (Item σ)} {next : GoString}
    (hnext : isCursorEnd next = false)
    (hitems : sp.container.items w.store sp.itemPrefix cursorStart
      (totalBytes / sp.segmentBytes + 1) = .ok (items, next)) :
    ∃ e, loadSegments sp totalBytes w = .ok (.error e, w) := by
  unfold loadSegments
  rw [if_neg (by omega), bind_apply]
  simp only [Prog.get, hitems, hnext, Bool.not_false, if_true]
  split_ifs
  · exact ⟨_, rfl⟩
  · exact ⟨_, rfl⟩

/-- **Opening over a store that pages.**  With the objects of any set of segments in a store that
lists them in pages, `loadSegments` succeeds and gives exactly those segments their items if and
only if the store sends them all with the end cursor in its first page. -/
theorem paged_listing_iff (sp : StoreParams σ) (w : World σ) (totalBytes : ℕ)
    (hpos : 1 ≤ sp.segmentBytes) (hmax : totalBytes ≤ maxOffset) (S : Finset ℕ)
    (hS : ∀ i ∈ S, i < totalBytes / sp.segmentBytes) (all : List (Item σ))
    (hnames : Names sp S all) (pages : Pages sp.container w.store sp.itemPrefix all) :
    Returns (loadSegments sp totalBytes) w (fun r _ => ∃ segments, r = .ok segments ∧
        HasItems sp S all (totalBytes / sp.segmentBytes) segments) ↔
      ∃ items, sp.container.items w.store sp.itemPrefix cursorStart
        (totalBytes / sp.segmentBytes + 1) = .ok (items, []) := by
  obtain ⟨items, next, hitems, -, -, hrest⟩ :=
    pages.page cursorStart (totalBytes / sp.segmentBytes + 1) (Nat.le_add_left 1 _)
  rw [pages.rest_start] at hrest
  cases hnext : isCursorEnd next with
  | true =>
    obtain rfl : next = [] := by simpa [isCursorEnd] using hnext
    obtain rfl : all = items := by simpa [hnext] using hrest
    exact iff_of_true (loadSegments_of_names hpos hmax hS hnames hitems) ⟨_, hitems⟩
  | false =>
    obtain ⟨e, hload⟩ := loadSegments_of_next hpos hnext hitems
    refine iff_of_false ?_ ?_
    · rintro ⟨r, w', hrun, segments, rfl, -⟩
      rw [hload] at hrun
      simp at hrun
    · rintro ⟨items', hitems'⟩
      rw [hitems] at hitems'
      obtain ⟨-, rfl⟩ := Prod.mk.inj (Except.ok.inj hitems')
      simp [isCursorEnd] at hnext

/-- A container in memory that lists at most so many items at a time.  A cursor is as long as the
number of the items before it. -/
def cappedContainer (name : GoString) (cap : ℕ) : Container MemStore where
  name := name
  items st pre cursor n :=
    let all := ((st.entries.map Prod.fst).filter fun m => pre.isPrefixOf m).map memItem
    let page := (all.drop cursor.length).take (min n cap)
    .ok (page, if all.length ≤ cursor.length + page.length then []
      else List.replicate (cursor.length + page.length) '.')
  put := (memContainer name).put

/-- It is a store that pages. -/
def cappedPages (name : GoString) {cap : ℕ} (hcap : 1 ≤ cap) (st : MemStore) (pre : GoString) :
    Pages (cappedContainer name cap) st pre
      (((st.entries.map Prod.fst).filter fun m => pre.isPrefixOf m).map memItem) where
  rest cursor :=
    (((st.entries.map Prod.fst).filter fun m => pre.isPrefixOf m).map memItem).drop cursor.length
  rest_start := rfl
  page cursor n hn := by
    set all := ((st.entries.map Prod.fst).filter fun m => pre.isPrefixOf m).map memItem with hall
    have hlen : ((all.drop cursor.length).take (min n cap)).length =
        min (min n cap) (all.length - cursor.length) := by
      rw [List.length_take, List.length_drop]
    refine ⟨(all.drop cursor.length).take (min n cap), _, rfl, ?_, ?_, ?_⟩
    · exact (List.length_take_le _ _).trans (min_le_left n cap)
    · intro hne hnil
      rcases List.take_eq_nil_iff.mp hnil with hzero | hnil
      · omega
      · exact hne hnil
    · simp only [← hall, hlen]
      split_ifs with hdone hend hend
      · rw [List.append_nil, List.take_of_length_le (by rw [List.length_drop]; omega)]
      · exact absurd rfl hend
      · -- the cursor behind the first page is not empty
        have hlong : 0 < cursor.length + min (min n cap) (all.length - cursor.length) := by omega
        rw [isCursorEnd, decide_eq_true_eq, List.replicate_eq_nil_iff] at hend
        omega
      · rw [List.length_replicate, ← List.drop_drop,
          show min (min n cap) (all.length - cursor.length) = min n cap by omega,
          List.take_append_drop]

/-- Two segments with two objects, listed one at a time. -/
def pagedTwo (cap : ℕ) : StoreParams MemStore :=
  ⟨cappedContainer ['c'] cap, 1, true, false, some 1, quietEnv⟩

/-- Both objects are there. -/
def bothStored : World MemStore :=
  { ObjRun.emptyWorld with
    store := (MemStore.empty.set ((pagedTwo 1).itemName ['1']) ⟨[2], .nil⟩).set
      ((pagedTwo 1).itemName ['0']) ⟨[1], .nil⟩ }

lemma names_bothStored (cap : ℕ) : Names (pagedTwo cap) {0, 1}
    [memItem ((pagedTwo cap).itemName ['0']), memItem ((pagedTwo cap).itemName ['1'])] := by
  refine ⟨by simp [memItem, StoreParams.itemName], fun n => ?_⟩
  simp [memItem, itoa, formatUint, digitsLoop, digitChar]

theorem paged_listing_iff_two :
    Returns (loadSegments (pagedTwo 2) 2) bothStored (fun r _ => ∃ segments, r = .ok segments ∧
      HasItems (pagedTwo 2) {0, 1} [memItem ((pagedTwo 2).itemName ['0']),
        memItem ((pagedTwo 2).itemName ['1'])] 2 segments) := by
  refine (paged_listing_iff (pagedTwo 2) bothStored 2 (by decide) (by decide) {0, 1} (by decide) _
    (names_bothStored 2) (cappedPages ['c'] (by decide) _ _)).mpr ⟨_, rfl⟩

/-- One item at a time, the second object makes the first page one with more behind it. -/
theorem paged_listing_fails :
    Nonempty (Pages (pagedTwo 1).container bothStored.store (pagedTwo 1).itemPrefix
      [memItem ((pagedTwo 1).itemName ['0']), memItem ((pagedTwo 1).itemName ['1'])]) ∧
    loadSegments (pagedTwo 1) 2 bothStored = .ok
      (.error (.new "After enumerating the expected items more items exist"), bothStored) :=
  ⟨⟨cappedPages ['c'] (by decide) _ _⟩, rfl⟩

end Paging

end Usbd
