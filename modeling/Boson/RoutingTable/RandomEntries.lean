import Boson.RoutingTable.Contents

/-!
# A random sample of the table (`RoutingTable::getRandomEntries`)

`DHT::updateBootstrap` asks for eight entries. If the table has more, different numbers are drawn,
sorted, and looked up in one walk over the buckets. Both vectors of the function have storage
reserved for all of that, but no elements, and are used with `operator[]`.

* `Reserved`: a vector with reserved storage. An access past the elements is not valid; here it goes
  to that storage.
* `Samples`: what the function should return.
* `getRandomEntries_iff`: it does so exactly if it need not draw.

The generator is the list of the numbers that it gives; where they run out the loop that draws has
not ended (`none`).
-/

namespace Boson

universe u

/-- A `std::vector`: its elements, the storage that is reserved after them with what was written
there, and whether there was an access that is not to an element. -/
structure Reserved (α : Type u) where
  elements : List α := []
  storage : List (Option α) := []
  invalid : Bool := false

namespace Reserved

variable {α : Type u} {v v' : Reserved α} {i : Nat} {x : α}

/-- `std::vector::reserve` of a new vector. -/
def reserve (n : Nat) : Reserved α := { storage := List.replicate n none }

/-- An access to the element at `i`. -/
def access (v : Reserved α) (i : Nat) : Reserved α :=
  { v with invalid := v.invalid || v.elements.length ≤ i }

/-- What an access to `i` reads. -/
def read (v : Reserved α) (i : Nat) : Option α :=
  if i < v.elements.length then v.elements[i]? else (v.storage[i - v.elements.length]?).join

/-- An access to `i` that writes. -/
def write (v : Reserved α) (i : Nat) (x : α) : Reserved α :=
  let v := v.access i
  if i < v.elements.length then { v with elements := v.elements.set i x }
  else { v with storage := v.storage.set (i - v.elements.length) (some x) }

/-- After accesses a vector has as many elements, and what was not valid is not undone. -/
structure Accessed (v v' : Reserved α) : Prop where
  length : v'.elements.length = v.elements.length
  invalid : v.invalid = true → v'.invalid = true

theorem Accessed.refl (v : Reserved α) : Accessed v v := ⟨rfl, fun h => h⟩

theorem Accessed.trans {v₁ v₂ v₃ : Reserved α} (h : Accessed v₁ v₂) (h' : Accessed v₂ v₃) :
    Accessed v₁ v₃ :=
  ⟨h'.length.trans h.length, fun hinvalid => h'.invalid (h.invalid hinvalid)⟩

theorem accessed_access (v : Reserved α) (i : Nat) : Accessed v (v.access i) :=
  ⟨rfl, fun h => by simp [access, h]⟩

theorem accessed_write (v : Reserved α) (i : Nat) (x : α) : Accessed v (v.write i x) := by
  have hfirst := accessed_access v i
  unfold write
  simp only
  split
  · exact ⟨by simpa using hfirst.length, hfirst.invalid⟩
  · exact ⟨hfirst.length, hfirst.invalid⟩

/-- A vector does not grow by a write. -/
theorem write_invalid (h : v.elements.length ≤ i) : (v.write i x).invalid = true := by
  have haccess : (v.access i).invalid = true := by simp [access, h]
  unfold write
  simp only
  split
  · exact haccess
  · exact haccess

end Reserved

namespace RoutingTable

/-! ## Drawing -/

/-- The loop over the numbers drawn before, from `j` on and for `n` of them: it stops where it finds
`random`. -/
def findLoop (random : Int) : Nat → Nat → Reserved Int → Nat × Reserved Int
  | 0, j, randoms => (j, randoms)
  | n + 1, j, randoms =>
    if randoms.read j = some random then (j, randoms.access j)
    else findLoop random n (j + 1) (randoms.access j)

/-- The loop that draws again as long as the number was drawn before. -/
def redrawLoop (i : Nat) : Int → Reserved Int → List Int → Option (Int × Reserved Int × List Int)
  | random, randoms, draws =>
    let (j, randoms) := findLoop random i 0 randoms
    if j = i then some (random, randoms, draws)
    else
      match draws with
      | [] => none
      | random :: draws => redrawLoop i random randoms draws

/-- The loop that draws the numbers from `i` on, `n` of them. -/
def drawLoop : Nat → Nat → Reserved Int → List Int → Option (Reserved Int)
  | 0, _, randoms, _ => some randoms
  | _ + 1, _, _, [] => none
  | n + 1, i, randoms, random :: draws =>
    match redrawLoop i random randoms draws with
    | none => none
    | some (random, randoms, draws) => drawLoop n (i + 1) (randoms.write i random) draws

/-! ## The walk over the buckets -/

/-- The walk, with its two vectors; `stray` tells if `list_get` was called with a position that is
not in the list. -/
structure Walk where
  index : Nat := 0
  randoms : Reserved Int
  result : Reserved KBucketEntry
  stray : Bool := false

/-- `result[index] = list_get(entries, pos)`, and `index++`. -/
def Walk.take (self : Walk) (entries : List KBucketEntry) (pos : Int) : Walk :=
  match (if 0 ≤ pos then entries[pos.toNat]? else none) with
  | some entry =>
    { self with result := self.result.write self.index entry, index := self.index + 1 }
  | none =>
    { self with stray := true, result := self.result.access self.index, index := self.index + 1 }

/-- The loop over the numbers that lie in a bucket, for at most `n` of them. -/
def takeLoop (entries : List KBucketEntry) (entriesCount : Int) : Nat → Walk → Walk
  | 0, walk => walk
  | n + 1, walk =>
    let random := walk.randoms.read walk.index
    let walk := { walk with randoms := walk.randoms.access walk.index }
    match random with
    | none => walk
    | some random =>
      if random < entries.length + entriesCount then
        takeLoop entries entriesCount n (walk.take entries (random - entriesCount))
      else walk

/-- The loop over the buckets. -/
def walkLoop (expect : Nat) : List KBucket → Int → Walk → Walk
  | [], _, walk => walk
  | bucket :: bucketsRef, entriesCount, walk =>
    let walk := takeLoop bucket.entries entriesCount (expect - walk.index) walk
    if walk.index ≥ expect then walk
    else walkLoop expect bucketsRef (bucket.entries.length + entriesCount) walk

/-- What `getRandomEntries` returns, and whether it made an access that is not valid. -/
structure RandomEntries where
  entries : List KBucketEntry
  invalid : Bool

/-- `RoutingTable::getRandomEntries`. -/
def getRandomEntries (self : RoutingTable) (expect : Nat) (draws : List Int) :
    Option RandomEntries :=
  let total := (self.buckets.map fun bucket => bucket.entries.length).sum
  if total ≤ expect then some { entries := self.buckets.flatMap (·.entries), invalid := false }
  else
    match drawLoop expect 0 (.reserve expect) draws with
    | none => none
    | some randoms =>
      let randoms := { randoms with elements := randoms.elements.insertionSort (· ≤ ·) }
      let walk := walkLoop expect self.buckets 0 { randoms := randoms, result := .reserve expect }
      some {
        entries := walk.result.elements
        invalid := walk.randoms.invalid || walk.result.invalid || walk.stray }

/-- What it should return: as many entries of the table as there are, up to `expect`, no two of them
the same; and all accesses are valid. -/
structure Samples (table : RoutingTable) (expect : Nat) (r : RandomEntries) : Prop where
  length : r.entries.length = min table.allEntries.length expect
  distinct : (r.entries.map (·.nodeId)).Nodup
  subset : r.entries ⊆ table.allEntries
  valid : r.invalid = false

/-! ## Accesses -/

open Reserved (Accessed)

variable {random : Int} {i n : Nat} {randoms randoms' : Reserved Int} {draws : List Int}

theorem findLoop_accessed (random : Int) (n j : Nat) (randoms : Reserved Int) :
    Accessed randoms (findLoop random n j randoms).2 := by
  induction n generalizing j randoms with
  | zero => exact .refl randoms
  | succ n ih =>
    rw [findLoop]
    split
    · exact Reserved.accessed_access randoms j
    · exact (Reserved.accessed_access randoms j).trans (ih (j + 1) _)

theorem redrawLoop_accessed {r : Int × Reserved Int × List Int}
    (h : redrawLoop i random randoms draws = some r) :
    Accessed randoms r.2.1 := by
  induction draws generalizing random randoms with
  | nil =>
    have hfind := findLoop_accessed random i 0 randoms
    rw [redrawLoop] at h
    simp only at h
    split_ifs at h
    obtain rfl := Option.some.inj h
    exact hfind
  | cons next draws ih =>
    have hfind := findLoop_accessed random i 0 randoms
    rw [redrawLoop] at h
    simp only at h
    split_ifs at h
    · obtain rfl := Option.some.inj h
      exact hfind
    · exact hfind.trans (ih h)

theorem drawLoop_accessed (h : drawLoop n i randoms draws = some randoms') :
    Accessed randoms randoms' := by
  induction n generalizing i randoms draws with
  | zero =>
    obtain rfl := Option.some.inj h
    exact .refl randoms
  | succ n ih =>
    cases draws with
    | nil => cases h
    | cons random draws =>
      rw [drawLoop] at h
      cases hredraw : redrawLoop i random randoms draws with
      | none =>
        rw [hredraw] at h
        cases h
      | some r =>
        rw [hredraw] at h
        exact ((redrawLoop_accessed hredraw).trans (Reserved.accessed_write r.2.1 i r.1)).trans
          (ih h)

/-- The first number is written past the elements. -/
theorem drawLoop_invalid (h : drawLoop (n + 1) i randoms draws = some randoms')
    (hsize : randoms.elements.length ≤ i) : randoms'.invalid = true := by
  cases draws with
  | nil => cases h
  | cons random draws =>
    rw [drawLoop] at h
    cases hredraw : redrawLoop i random randoms draws with
    | none =>
      rw [hredraw] at h
      cases h
    | some r =>
      rw [hredraw] at h
      refine (drawLoop_accessed h).invalid (Reserved.write_invalid ?_)
      rw [(redrawLoop_accessed hredraw).length]
      exact hsize

/-- What the walk does to its vectors. -/
def Walked (w w' : Walk) : Prop := Accessed w.randoms w'.randoms ∧ Accessed w.result w'.result

theorem Walked.refl (w : Walk) : Walked w w := ⟨.refl _, .refl _⟩

theorem Walked.trans {w₁ w₂ w₃ : Walk} (h : Walked w₁ w₂) (h' : Walked w₂ w₃) : Walked w₁ w₃ :=
  ⟨h.1.trans h'.1, h.2.trans h'.2⟩

theorem take_walked (w : Walk) (entries : List KBucketEntry) (pos : Int) :
    Walked w (w.take entries pos) := by
  rw [Walk.take]
  split
  · exact ⟨.refl _, Reserved.accessed_write _ _ _⟩
  · exact ⟨.refl _, Reserved.accessed_access _ _⟩

theorem takeLoop_walked (entries : List KBucketEntry) (entriesCount : Int) (n : Nat) (w : Walk) :
    Walked w (takeLoop entries entriesCount n w) := by
  induction n generalizing w with
  | zero => exact .refl w
  | succ n ih =>
    have hread : Walked w { w with randoms := w.randoms.access w.index } :=
      ⟨Reserved.accessed_access _ _, .refl _⟩
    rw [takeLoop]
    split
    · exact hread
    · split
      · exact (hread.trans (take_walked _ entries _)).trans (ih _)
      · exact hread

theorem walkLoop_walked (expect : Nat) (bucketsRef : List KBucket) (entriesCount : Int) (w : Walk) :
    Walked w (walkLoop expect bucketsRef entriesCount w) := by
  induction bucketsRef generalizing entriesCount w with
  | nil => exact .refl w
  | cons bucket bucketsRef ih =>
    have hbucket := takeLoop_walked bucket.entries entriesCount (expect - w.index) w
    rw [walkLoop]
    split
    · exact hbucket
    · exact hbucket.trans (ih _ _)

/-! ## What is returned -/

variable {table : RoutingTable} {expect : Nat} {r : RandomEntries}

theorem length_allEntries (table : RoutingTable) :
    table.allEntries.length = (table.buckets.map fun bucket => bucket.entries.length).sum :=
  List.length_flatMap

/-- All entries, if no more are asked for than there are. -/
theorem getRandomEntries_all (hall : table.allEntries.length ≤ expect) (draws : List Int) :
    table.getRandomEntries expect draws = some
      { entries := table.allEntries, invalid := false } := by
  rw [length_allEntries] at hall
  rw [getRandomEntries, if_pos hall]
  rfl

/-- Otherwise none, and the numbers are kept where they must not be. -/
theorem getRandomEntries_none (hmore : expect < table.allEntries.length)
    (h : table.getRandomEntries expect draws = some r) : r.entries = [] ∧
    (0 < expect → r.invalid = true) := by
  rw [length_allEntries] at hmore
  rw [getRandomEntries, if_neg (Nat.not_le.mpr hmore)] at h
  cases hdraw : drawLoop expect 0 (.reserve expect) draws with
  | none =>
    rw [hdraw] at h
    cases h
  | some randoms =>
    rw [hdraw] at h
    obtain rfl := Option.some.inj h
    obtain ⟨hrandoms, hresult⟩ := walkLoop_walked expect table.buckets 0
      { randoms := { randoms with elements := randoms.elements.insertionSort (· ≤
        ·) }, result := .reserve expect }
    refine ⟨List.length_eq_zero_iff.mp hresult.length, fun hpos => ?_⟩
    obtain ⟨n, rfl⟩ := Nat.exists_eq_add_one.mpr hpos
    have hfirst : randoms.invalid = true := drawLoop_invalid hdraw (Nat.le_refl 0)
    have hlast := hrandoms.invalid hfirst
    simp only [hlast, Bool.true_or]

/-- If none are asked for, nothing is done. -/
theorem getRandomEntries_zero (hmore : 0 < table.allEntries.length)
    (h : table.getRandomEntries 0 draws = some r) : r = { entries := [], invalid := false } := by
  have hwalk (w : Walk) : walkLoop 0 table.buckets 0 w = w := by
    cases table.buckets with
    | nil => rfl
    | cons bucket bucketsRef =>
      rw [walkLoop, Nat.zero_sub, takeLoop]
      exact if_pos (Nat.zero_le _)
  rw [length_allEntries] at hmore
  rw [getRandomEntries, if_neg (Nat.not_le.mpr hmore), drawLoop] at h
  simp only [hwalk] at h
  exact (Option.some.inj h).symm

/-- For a table that operations lead to, and numbers for which the loop ends, the function returns
what it should exactly if it returns all entries, or none are asked for. -/
theorem getRandomEntries_iff (localId : Id) (ops : List Op) (table : RoutingTable)
    (hrun : (init localId).run ops = some table) (expect : Nat) (draws : List Int)
    (r : RandomEntries) (h : table.getRandomEntries expect draws = some r) :
    Samples table expect r ↔ table.allEntries.length ≤ expect ∨ expect = 0 := by
  obtain ⟨table', hrun', hpartition⟩ := run_partition localId ops
  obtain rfl := Option.some.inj (hrun.symm.trans hrun')
  by_cases hall : table.allEntries.length ≤ expect
  · rw [getRandomEntries_all hall] at h
    obtain rfl := Option.some.inj h
    exact iff_of_true ⟨(min_eq_left hall).symm, hpartition.nodup, fun _ he => he, rfl⟩ (.inl hall)
  · obtain ⟨hentries, hinvalid⟩ := getRandomEntries_none (Nat.not_le.mp hall) h
    rw [or_iff_right hall]
    constructor
    · intro hsamples
      by_contra hpos
      exact absurd (hsamples.valid.symm.trans (hinvalid (Nat.pos_of_ne_zero hpos)))
        Bool.false_ne_true
    · rintro rfl
      obtain rfl := getRandomEntries_zero (Nat.not_le.mp hall) h
      exact ⟨(Nat.min_zero _).symm, List.nodup_nil, List.nil_subset _, rfl⟩

/-- An entry whose id begins with the byte `b`. -/
def entryAt (b : UInt8) : KBucketEntry where
  nodeId := Id.zero.setByte 0 b
  sockaddr := .inet ⟨[9, 8, 7, b], rfl⟩ 39001
  created := 1
  lastSeen := 1
  reachable := true

/-- One entry more than a bootstrap asks for. -/
def nineEntries : List KBucketEntry := [1, 2, 3, 4, 5, 6, 7, 8, 0x80].map entryAt

/-- Eight different numbers are drawn at once, and nothing is returned. -/
theorem nineEntries_none : ∃ table, (init Id.zero).run (nineEntries.map (.put 2)) = some table ∧
    table.allEntries.length = 9 ∧ ∃ r, table.getRandomEntries 8 [4, 1, 7, 8, 0, 2, 5, 3] = some r ∧
      r.entries = [] := by
  have hrun := (init_inv Id.zero).run_puts 2 nineEntries
  have hscan : (scanAll 2 (init Id.zero) nineEntries).map (fun table => (table.allEntries.length,
      (table.getRandomEntries 8 [4, 1, 7, 8, 0, 2, 5, 3]).map (·.entries))) =
        some (9, some []) := by
    decide +kernel
  obtain ⟨table, htable, heq⟩ := Option.map_eq_some_iff.mp hscan
  obtain ⟨hlength, hentries⟩ := Prod.mk.inj heq
  obtain ⟨r, hr, hnone⟩ := Option.map_eq_some_iff.mp hentries
  exact ⟨table, hrun.trans htable, hlength, r, hr, hnone⟩

theorem getRandomEntries_iff_nineEntries : ∃ table r,
    (init Id.zero).run (nineEntries.map (.put 2)) = some table ∧
    table.getRandomEntries 8 [4, 1, 7, 8, 0, 2, 5, 3] = some r ∧
    (Samples table 8 r ↔ table.allEntries.length ≤ 8 ∨ 8 = 0) := by
  obtain ⟨table, hrun, -, r, hr, -⟩ := nineEntries_none
  exact ⟨table, r, hrun, hr, getRandomEntries_iff Id.zero _ table hrun 8 _ r hr⟩

/-- A table of nine entries is not sampled. -/
theorem not_samples_nineEntries : ¬ ∀ (localId : Id) (ops : List Op) (table : RoutingTable)
    (expect : Nat) (draws : List Int) (r : RandomEntries), (init localId).run ops = some table →
    table.getRandomEntries expect draws = some r → Samples table expect r := by
  intro h
  obtain ⟨table, hrun, hlength, r, hr, hnone⟩ := nineEntries_none
  have hsampled := (h Id.zero _ table 8 _ r hrun hr).length
  rw [hlength, hnone] at hsampled
  exact absurd hsampled (by decide)

end RoutingTable

end Boson
