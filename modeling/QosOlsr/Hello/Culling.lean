import QosOlsr.Hello.RoundTrip
import QosOlsr.Library.LinkedLists

/-!
# Culling the unspecified entries of a HELLO

`deserialize_hello` links each decoded entry in front of the list and takes
those unspecified entries out again whose address another entry has.  The list
is one of cells in memory, each under the number of its allocation.
-/

namespace QosOlsr

open Library Function List Option

variable {ver : IpVersion}

/-- `hello->neighbors` with the cells in memory and the two saved pointers. -/
structure HelloList (ver : IpVersion) where
  cells : Nat → Option (HelloNeighbor (IpAddr ver) × Option Nat)
  allocated : Nat
  neighbors : Option Nat
  neighUnspecFirst : Option Nat
  neighUnspecFirstPrev : Option Nat

def HelloList.start : HelloList ver where
  cells _ := none
  allocated := 0
  neighbors := none
  neighUnspecFirst := none
  neighUnspecFirstPrev := none

def linkNeighbor (list : HelloList ver) (neigh : HelloNeighbor (IpAddr ver)) : HelloList ver where
  cells := update list.cells list.allocated (some (neigh, list.neighbors))
  allocated := list.allocated + 1
  neighbors := some list.allocated
  neighUnspecFirst :=
    if neigh.link = .unspec then some list.allocated
    else list.neighUnspecFirst
  neighUnspecFirstPrev :=
    if neigh.link ≠ .unspec ∧ list.neighUnspecFirstPrev = none then
      some list.allocated
    else
      list.neighUnspecFirstPrev

structure Culling (ver : IpVersion) where
  cells : Nat → Option (HelloNeighbor (IpAddr ver) × Option Nat)
  neighUnspecFirst : Option Nat
  neighCullPrev : Nat
  neighCull : Option Nat

/-- The inner loop; it has no result when it runs out of iterations or follows
a pointer to a freed cell. -/
def cullLoop (address : IpAddr ver) : Nat → Culling ver → Option (Culling ver)
  | 0, _ => none
  | fuel + 1, culling =>
    match culling.neighCull with
    | none => some culling
    | some neighCull => do
      let cell ← culling.cells neighCull
      if cell.1.address ≠ address then
        cullLoop address fuel
          { culling with
            neighCullPrev := neighCull
            neighCull := cell.2 }
      else
        let prev ← culling.cells culling.neighCullPrev
        cullLoop address fuel
          { culling with
            cells := update
                (update culling.cells culling.neighCullPrev (some (prev.1, cell.2)))
                neighCull none
            neighUnspecFirst :=
              if some neighCull = culling.neighUnspecFirst then cell.2
              else culling.neighUnspecFirst
            neighCull := cell.2 }

def cullNeighbors (bound prev : Nat) : Nat → Option Nat → HelloList ver → Option (HelloList ver)
  | 0, _, _ => none
  | fuel + 1, neigh, list =>
    match neigh with
    | none => some list
    | some ptr =>
      if some ptr = list.neighUnspecFirst then
        some list
      else do
        let cell ← list.cells ptr
        let culled ←
          cullLoop cell.1.address bound
            ⟨list.cells, list.neighUnspecFirst, prev, list.neighUnspecFirst⟩
        let after ← culled.cells ptr
        cullNeighbors bound prev fuel after.2
          { list with
            cells := culled.cells
            neighUnspecFirst := culled.neighUnspecFirst }

/-- The end of `deserialize_hello`, with a bound for the iterations of each
loop. -/
def cullHello (bound : Nat) (list : HelloList ver) : Option (HelloList ver) :=
  match list.neighUnspecFirstPrev, list.neighUnspecFirst with
  | some prev, some _ => cullNeighbors bound prev bound list.neighbors list
  | _, _ => some list

abbrev HelloNode (ver : IpVersion) : Type := Nat × HelloNeighbor (IpAddr ver)

def withoutAddress (address : IpAddr ver) (nodes : List (HelloNode ver)) : List (HelloNode ver) :=
  nodes.filter fun node => node.2.address ≠ address

/-- The inner loop filters the rest of the list, where `others` are the entries
that are not unspecified and `kept` the unspecified ones already passed. -/
theorem cullLoop_spec (address : IpAddr ver) {start : Option Nat} {others : List (HelloNode ver)}
    (rest : List (HelloNode ver)) :
    ∀ {fuel : Nat} {cells : Nat → Option (HelloNeighbor (IpAddr ver) × Option Nat)}
      {front kept : List (HelloNode ver)} {prev : HelloNode ver},
      rest.length < fuel →
      Segment cells start (front ++ prev :: rest) none →
      ((front ++ prev :: rest).map Prod.fst).Nodup →
      front ++ [prev] = others ++ kept →
      ∃ culled, cullLoop address fuel
            ⟨cells, (kept ++ rest).head?.map Prod.fst, prev.1,
              rest.head?.map Prod.fst⟩ = some culled ∧
          Segment culled.cells start (others ++ (kept ++ withoutAddress address rest)) none ∧
          culled.neighUnspecFirst = (kept ++ withoutAddress address rest).head?.map Prod.fst := by
  induction rest with
  | nil =>
    intro fuel cells front kept prev enough whole _ passed
    obtain ⟨fuel, rfl⟩ := Nat.exists_eq_add_of_lt enough
    refine ⟨_, rfl, ?_, rfl⟩
    rw [withoutAddress, filter_nil, append_nil, ← passed]
    exact whole
  | cons node rest ih =>
    intro fuel cells front kept prev enough whole nodup passed
    obtain ⟨fuel, rfl⟩ : ∃ less, fuel = less + 1 :=
      ⟨fuel - 1, by simp only [length_cons] at enough; omega⟩
    have enoughRest : rest.length < fuel := by simpa using enough
    have reordered : front ++ prev :: node :: rest = (front ++ [prev]) ++ node :: rest := by simp
    have isCell := Segment.cell_eq (reordered ▸ whole)
    by_cases ne : node.2.address ≠ address
    · have filtered : withoutAddress address (node :: rest) = node :: withoutAddress address rest :=
        filter_cons_of_pos (by simpa using ne)
      rw [reordered] at whole nodup
      have passedNode : (front ++ [prev]) ++ [node] = others ++ (kept ++ [node]) := by
        rw [passed, append_assoc]
      obtain ⟨culled, isCulled, culledWhole, culledFirst⟩ := ih enoughRest whole nodup passedNode
      refine ⟨culled, ?_, ?_, ?_⟩
      · simp only [head?_cons, map_some, cullLoop, isCell, bind_eq_bind, bind_some, if_pos ne]
        simpa using isCulled
      · simpa [filtered] using culledWhole
      · simpa [filtered] using culledFirst
    · have filtered : withoutAddress address (node :: rest) = withoutAddress address rest :=
        filter_cons_of_neg (by simpa using ne)
      have prevCell := whole.cell_eq
      have unlinked := whole.unlink nodup
      have shorter : ((front ++ prev :: rest).map Prod.fst).Nodup := by
        refine nodup.sublist (List.Sublist.map _ ?_)
        simp
      have firstAfter :
          (if some node.1 = (kept ++ node :: rest).head?.map Prod.fst then
            rest.head?.map Prod.fst
          else
            (kept ++ node :: rest).head?.map Prod.fst) =
            (kept ++ rest).head?.map Prod.fst := by
        cases kept with
        | nil => simp
        | cons first more =>
          have isFirst : first ∈ front ++ [prev] := by
            rw [passed]
            simp
          rw [reordered, map_append, nodup_append] at nodup
          have apart : first.1 ≠ node.1 :=
            nodup.2.2 first.1 (mem_map_of_mem isFirst) node.1 (by simp)
          simp [apart.symm]
      obtain ⟨culled, isCulled, culledWhole, culledFirst⟩ := ih enoughRest unlinked shorter passed
      refine ⟨culled, ?_, ?_, ?_⟩
      · simp only [head?_cons, map_some, cullLoop, isCell,
          bind_eq_bind, bind_some, if_neg ne, prevCell, firstAfter]
        exact isCulled
      · rw [filtered]
        exact culledWhole
      · rw [filtered]
        exact culledFirst

section

variable (others nodes : List (HelloNode ver))

/-- What all entries of `others` leave of the unspecified ones. -/
def withoutAddresses : List (HelloNode ver) :=
  others.foldl (fun remaining node => withoutAddress node.2.address remaining) nodes

theorem withoutAddresses_eq_filter : withoutAddresses others nodes =
      nodes.filter fun node => ∀ other ∈ others, node.2.address ≠ other.2.address := by
  unfold withoutAddresses
  induction others generalizing nodes with
  | nil => simp
  | cons first rest ih =>
    rw [List.foldl_cons, ih, withoutAddress, List.filter_filter]
    congr 1
    funext node
    rw [Bool.eq_iff_iff, Bool.and_eq_true]
    simp only [decide_eq_true_eq]
    rw [forall_mem_cons, and_comm]

theorem withoutAddresses_sublist : (withoutAddresses others nodes).Sublist nodes := by
  rw [withoutAddresses_eq_filter]
  exact filter_sublist

end

/-- The outer loop filters for each entry still to come. -/
theorem cullNeighbors_spec {bound : Nat} {front : List (HelloNode ver)}
    {prev : HelloNode ver} (todo : List (HelloNode ver)) :
    ∀ {fuel : Nat} {list : HelloList ver} {done unspecs : List (HelloNode ver)},
      todo.length < fuel → unspecs.length < bound →
      front ++ [prev] = done ++ todo →
      Segment list.cells list.neighbors (front ++ [prev] ++ unspecs) none →
      ((front ++ [prev] ++ unspecs).map Prod.fst).Nodup →
      list.neighUnspecFirst = unspecs.head?.map Prod.fst →
      ∃ result, cullNeighbors bound prev.1 fuel
            ((todo ++ unspecs).head?.map Prod.fst) list = some result ∧
          Segment result.cells result.neighbors
            (front ++ [prev] ++ withoutAddresses todo unspecs) none := by
  induction todo with
  | nil =>
    intro fuel list done unspecs enough _ _ whole _ isFirst
    obtain ⟨fuel, rfl⟩ := Nat.exists_eq_add_of_lt enough
    refine ⟨list, ?_, whole⟩
    rw [nil_append, ← isFirst]
    cases first : list.neighUnspecFirst with
    | none => rfl
    | some ptr => exact if_pos first.symm
  | cons node rest ih =>
    intro fuel list done unspecs enough bounded passed whole nodup isFirst
    obtain ⟨fuel, rfl⟩ : ∃ less, fuel = less + 1 :=
      ⟨fuel - 1, by simp only [length_cons] at enough; omega⟩
    have enoughRest : rest.length < fuel := by simpa using enough
    have isMem : node ∈ front ++ [prev] := by
      rw [passed]
      simp
    have notFirst : ¬some node.1 = list.neighUnspecFirst := by
      rw [isFirst]
      intro same
      obtain ⟨first, isHead, sameFirst⟩ := map_eq_some_iff.mp same.symm
      rw [map_append, nodup_append] at nodup
      exact nodup.2.2 node.1 (mem_map_of_mem isMem) first.1
          (mem_map_of_mem (mem_of_head? isHead)) sameFirst.symm
    have isCell : list.cells node.1 = some (node.2, (rest ++ unspecs).head?.map Prod.fst) := by
      rw [passed, append_assoc, cons_append] at whole
      exact whole.cell_eq
    have wholeHere := whole
    rw [append_assoc, singleton_append] at wholeHere
    have nodupHere := nodup
    rw [append_assoc, singleton_append] at nodupHere
    obtain ⟨culled, isCulled, culledWhole, culledFirst⟩ :=
      cullLoop_spec node.2.address unspecs bounded wholeHere nodupHere
        (append_nil (front ++ [prev])).symm
    rw [nil_append] at culledWhole culledFirst isCulled
    have isCellAfter : culled.cells node.1 =
          some (node.2, (rest ++ withoutAddress node.2.address unspecs).head?.map Prod.fst) := by
      have culledHere := culledWhole
      rw [passed, append_assoc, cons_append] at culledHere
      exact culledHere.cell_eq
    have fewer : (withoutAddress node.2.address unspecs).Sublist unspecs := filter_sublist
    obtain ⟨result, isResult, resultWhole⟩ := @ih fuel
        { list with
          cells := culled.cells
          neighUnspecFirst := culled.neighUnspecFirst }
        (done ++ [node]) _ enoughRest
        (fewer.length_le.trans_lt bounded)
        (by rw [passed, append_assoc, singleton_append])
        culledWhole
        (nodup.sublist ((fewer.append_left _).map _)) culledFirst
    refine ⟨result, ?_, resultWhole⟩
    rw [cons_append, head?_cons, map_some, cullNeighbors, if_neg notFirst, isCell]
    simp only [bind_eq_bind, bind_some]
    rw [isFirst, isCulled, bind_some, isCellAfter]
    exact isResult

/-- The cells of the entries in the order of the list, the last decoded one
first. -/
def helloNodes (parsed : List (HelloNeighbor (IpAddr ver))) : List (HelloNode ver) :=
  (parsed.zipIdx.map Prod.swap).reverse

private theorem helloNodes_append_singleton (parsed : List (HelloNeighbor (IpAddr ver)))
    (neigh : HelloNeighbor (IpAddr ver)) :
    helloNodes (parsed ++ [neigh]) = (parsed.length, neigh) :: helloNodes parsed := by
  simp [helloNodes, zipIdx_append]

variable {parsed : List (HelloNeighbor (IpAddr ver))}

theorem mem_helloNodes_iff {index : Nat} {neigh : HelloNeighbor (IpAddr ver)} :
    (index, neigh) ∈ helloNodes parsed ↔ parsed[index]? = some neigh := by
  simp [helloNodes, mem_zipIdx_iff_getElem?]

section

variable (parsed : List (HelloNeighbor (IpAddr ver)))

private theorem helloNodes_map_snd : (helloNodes parsed).map Prod.snd = parsed.reverse := by
  simp [helloNodes, comp_def]

theorem helloNodes_nodup : ((helloNodes parsed).map Prod.fst).Nodup := by
  simp [helloNodes, comp_def, nodup_range']

private theorem foldl_linkNeighbor_spec :
    let list := parsed.foldl linkNeighbor HelloList.start
    list.allocated = parsed.length ∧ Segment list.cells list.neighbors (helloNodes parsed) none ∧
      list.neighUnspecFirst = ((helloNodes parsed).find? fun node => node.2.link = .unspec).map
          Prod.fst ∧
      list.neighUnspecFirstPrev =
        ((helloNodes parsed).reverse.find? fun node =>
          node.2.link ≠ .unspec).map Prod.fst := by
  induction parsed using List.reverseRecOn with
  | nil => exact ⟨rfl, rfl, rfl, rfl⟩
  | append_singleton parsed neigh ih =>
    obtain ⟨allocated, whole, isFirst, isPrev⟩ := ih
    rw [foldl_append, List.foldl_cons, foldl_nil, helloNodes_append_singleton]
    refine ⟨?_, ?_, ?_, ?_⟩
    · simp [linkNeighbor, allocated]
    · rw [← allocated]
      refine whole.push ?_ neigh
      rw [allocated]
      intro isMem
      obtain ⟨⟨index, other⟩, isNode, rfl⟩ := List.mem_map.mp isMem
      have inside := mem_helloNodes_iff.mp isNode
      simp at inside
    · by_cases isUnspec : neigh.link = .unspec
      · simp [linkNeighbor, isUnspec, allocated]
      · simp [linkNeighbor, isUnspec, isFirst]
    · rw [reverse_cons, find?_append]
      simp only [linkNeighbor, isPrev]
      cases found :
          (helloNodes parsed).reverse.find? fun node => decide (node.2.link ≠ .unspec) with
      | some node => simp
      | none =>
        by_cases isUnspec : neigh.link = .unspec
        · simp [isUnspec]
        · simp [isUnspec, allocated]

end

/-- Culling a list in which the unspecified entries come last. -/
theorem cullHello_spec {others unspecs : List (HelloNode ver)}
    (split : helloNodes parsed = others ++ unspecs) (typed : ∀ node ∈ others, node.2.link ≠ .unspec)
    (untyped : ∀ node ∈ unspecs, node.2.link = .unspec)
    {bound : Nat} (enough : parsed.length < bound) :
    ∃ result, cullHello bound (parsed.foldl linkNeighbor HelloList.start) = some result ∧
      Segment result.cells result.neighbors (others ++ withoutAddresses others unspecs) none := by
  obtain ⟨-, whole, isFirst, isPrev⟩ := foldl_linkNeighbor_spec parsed
  have total : others.length + unspecs.length = parsed.length := by
    have lengths := congrArg List.length split
    simpa [helloNodes] using lengths.symm
  have first : (parsed.foldl linkNeighbor HelloList.start).neighUnspecFirst =
        unspecs.head?.map Prod.fst := by
    rw [isFirst, split, find?_append, find?_eq_none.mpr]
    · cases unspecs with
      | nil => rfl
      | cons node rest => simp [untyped node mem_cons_self]
    · intro node isMem
      simpa using typed node isMem
  rcases eq_nil_or_concat' others with rfl | ⟨front, prev, rfl⟩
  · -- without other entries no pointer in front of the unspecified ones is set
    have noPrev : (parsed.foldl linkNeighbor HelloList.start).neighUnspecFirstPrev = none := by
      rw [isPrev, split, find?_eq_none.mpr]
      · rfl
      · intro node isMem
        rw [nil_append, List.mem_reverse] at isMem
        simpa using untyped node isMem
    refine ⟨_, ?_, split ▸ whole⟩
    rw [cullHello, noPrev]
  · have lastOther :
        (parsed.foldl linkNeighbor HelloList.start).neighUnspecFirstPrev = some prev.1 := by
      rw [isPrev, split, reverse_append, find?_append, find?_eq_none.mpr]
      · simp [typed prev (by simp)]
      · intro node isMem
        simpa using untyped node (List.mem_reverse.mp isMem)
    rw [cullHello, lastOther]
    cases unspecs with
    | nil =>
      rw [first]
      refine ⟨_, rfl, ?_⟩
      rw [eq_nil_of_sublist_nil (withoutAddresses_sublist _ [])]
      exact split ▸ whole
    | cons node rest =>
      have isStart : (parsed.foldl linkNeighbor HelloList.start).neighbors =
            (front ++ [prev] ++ node :: rest).head?.map Prod.fst :=
        split ▸ whole.start_eq
      have distinct := helloNodes_nodup parsed
      rw [split] at whole distinct
      obtain ⟨result, isResult, resultWhole⟩ := cullNeighbors_spec (front ++ [prev])
          (show (front ++ [prev]).length < bound by omega)
          (show (node :: rest).length < bound by omega)
          (nil_append (front ++ [prev])).symm whole distinct first
      rw [← isStart] at isResult
      refine ⟨result, ?_, resultWhole⟩
      rw [first]
      exact isResult

section Decoded

variable (mem : Memory) (ver : IpVersion) (lq : Option LqHandler)

private theorem readHelloNeighbor_link (linkCode : Nat) (curr : Cursor) :
    (readHelloNeighbor mem ver lq linkCode curr).1.link = extractLink linkCode := by
  cases lq with
  | none => rfl
  | some handler => rfl

private theorem readHelloBlock_neighbors (linkCode limit2 : Nat) (reading : HelloReading ver) :
    ∃ added, (readHelloBlock mem ver lq linkCode limit2 reading).neighbors =
      added ++ reading.neighbors ∧ ∀ neigh ∈ added, neigh.link = extractLink linkCode := by
  fun_induction readHelloBlock mem ver lq linkCode limit2 reading with
  | case1 reading inside next ih =>
    obtain ⟨added, isList, links⟩ := ih
    refine ⟨added ++ [next.1], by simp [isList], ?_⟩
    intro neigh isMem
    rcases List.mem_append.mp isMem with later | isNext
    · exact links neigh later
    · rw [mem_singleton.mp isNext]
      exact readHelloNeighbor_link mem ver lq linkCode reading.curr
  | case2 reading outside => exact ⟨[], rfl, by simp⟩

/-- A pass links entries of its own link type in front of the list. -/
theorem runLoop_helloBlockStep_neighbors
    (limit : Nat) (link : LinkType) (fuel : Nat) (reading : HelloReading ver) :
    ∃ added, (runLoop (helloBlockStep mem ver lq limit link) fuel reading).1.neighbors =
      added ++ reading.neighbors ∧ ∀ neigh ∈ added, neigh.link = link := by
  refine runLoop_invariant
      (fun st : HelloReading ver => ∃ added,
        st.neighbors = added ++ reading.neighbors ∧ ∀ neigh ∈ added, neigh.link = link)
      ?_ fuel ⟨[], rfl, by simp⟩
  rintro st next ⟨added, isList, links⟩ taken
  unfold helloBlockStep at taken
  split at taken
  · dsimp only at taken
    split at taken
    · cases taken
      exact ⟨added, isList, links⟩
    next own =>
      cases taken
      obtain ⟨more, isMore, moreLinks⟩ := readHelloBlock_neighbors mem ver lq
          (readBlockHeader mem st.curr).1.1
          (st.curr.pos + (readBlockHeader mem st.curr).1.2)
          { st with curr := (readBlockHeader mem st.curr).2 }
      refine ⟨more ++ added, ?_, ?_⟩
      · rw [isMore, append_assoc, ← isList]
      · intro neigh isMem
        rcases List.mem_append.mp isMem with isNew | isOld
        · exact (moreLinks neigh isNew).trans (not_not.mp own)
        · exact links neigh isOld
  · cases taken

private theorem runHelloPasses_neighbors
    (limit currSaved fuel : Nat) (links : List LinkType) (reading : HelloReading ver) :
    ∃ added, (runHelloPasses mem ver lq limit currSaved fuel links reading).1.neighbors =
      added ++ reading.neighbors ∧ ∀ neigh ∈ added, neigh.link ∈ links := by
  induction links generalizing reading with
  | nil => exact ⟨[], rfl, by simp⟩
  | cons link rest ih =>
    obtain ⟨added, isAdded, own⟩ :=
      runLoop_helloBlockStep_neighbors mem ver lq limit link fuel
        { reading with curr := { reading.curr with pos := currSaved } }
    unfold runHelloPasses
    dsimp only
    split
    · obtain ⟨more, isMore, later⟩ := ih
        (runLoop (helloBlockStep mem ver lq limit link) fuel
          { reading with
            curr := { reading.curr with pos := currSaved } }).1
      refine ⟨more ++ added, by rw [isMore, isAdded, append_assoc], ?_⟩
      intro neigh isMem
      rcases List.mem_append.mp isMem with isNew | isOld
      · exact mem_cons_of_mem link (later neigh isNew)
      · exact own neigh isOld ▸ mem_cons_self
    · exact ⟨added, isAdded, fun neigh isMem => own neigh isMem ▸ mem_cons_self⟩

/-- The first pass is the one for unspecified links, so its entries end up at
the end of the list. -/
theorem helloPasses_neighbors (handler : LqHandler) (fuel : Nat) :
    ∃ others unspecs, (helloPasses mem ver handler fuel).1.neighbors = others ++ unspecs ∧
      (∀ neigh ∈ others, neigh.link ≠ .unspec) ∧ ∀ neigh ∈ unspecs, neigh.link = .unspec := by
  unfold helloPasses
  obtain ⟨unspecs, isUnspecs, untyped⟩ :=
    runLoop_helloBlockStep_neighbors mem ver (helloLq mem handler)
      (readU16 mem 2) .unspec fuel
      ⟨⟨16 + ver.ipsize, 15 + ver.ipsize⟩, []⟩
  rw [append_nil] at isUnspecs
  have order : LinkType.order = .unspec :: [.lost, .asym, .sym] := rfl
  rw [order]
  unfold runHelloPasses
  dsimp only
  split
  · obtain ⟨others, isOthers, links⟩ :=
      runHelloPasses_neighbors mem ver (helloLq mem handler)
        (readU16 mem 2) (16 + ver.ipsize) fuel [.lost, .asym, .sym]
        (runLoop
          (helloBlockStep mem ver (helloLq mem handler) (readU16 mem 2) .unspec) fuel
          ⟨⟨16 + ver.ipsize, 15 + ver.ipsize⟩, []⟩).1
    refine ⟨others, unspecs, by rw [isOthers, isUnspecs], ?_, untyped⟩
    intro neigh isMem isUnspec
    have isLater := links neigh isMem
    rw [isUnspec] at isLater
    simp at isLater
  · exact ⟨[], unspecs, isUnspecs, by simp, untyped⟩

/-- The entries in the order in which `deserialize_hello` decodes them. -/
def parsedNeighbors (handler : LqHandler) (fuel : Nat) : List (HelloNeighbor (IpAddr ver)) :=
  (helloPasses mem ver handler fuel).1.neighbors.reverse

/-- After the culling the list is well formed and holds each decoded entry
once, but for the unspecified ones whose address another entry has. -/
theorem deserializeHello_culls (handler : LqHandler) {fuel bound : Nat} (isHello : IsHello mem)
    (ended : (deserializeHello mem ver handler fuel).ended = true)
    (enough : (parsedNeighbors mem ver handler fuel).length < bound) :
    ∃ result nodes, cullHello bound
          ((parsedNeighbors mem ver handler fuel).foldl linkNeighbor
            HelloList.start) = some result ∧
        Segment result.cells result.neighbors nodes none ∧
        (nodes.map Prod.fst).Nodup ∧
        (∀ node ∈ nodes, (parsedNeighbors mem ver handler fuel)[node.1]? = some node.2) ∧
        (∀ index neigh, (parsedNeighbors mem ver handler fuel)[index]? = some neigh →
          ((index, neigh) ∈ nodes ↔
            (neigh.link = .unspec → ∀ other ∈ parsedNeighbors mem ver handler fuel,
                other.link ≠ .unspec → other.address ≠ neigh.address))) ∧
        (deserializeHello mem ver handler fuel).message.map
            HelloMessage.neighbors = some (nodes.map Prod.snd) := by
  obtain ⟨others, unspecs, isList, typed, untyped⟩ := helloPasses_neighbors mem ver handler fuel
  have nodesList : (helloNodes (parsedNeighbors mem ver handler fuel)).map
          Prod.snd = others ++ unspecs := by
    rw [helloNodes_map_snd, parsedNeighbors, reverse_reverse, isList]
  obtain ⟨otherNodes, unspecNodes, split, rfl, rfl⟩ := map_eq_append_iff.mp nodesList
  have typedNodes : ∀ node ∈ otherNodes, node.2.link ≠ .unspec :=
    fun node isMem => typed node.2 (mem_map_of_mem isMem)
  have untypedNodes : ∀ node ∈ unspecNodes, node.2.link = .unspec :=
    fun node isMem => untyped node.2 (mem_map_of_mem isMem)
  obtain ⟨result, isResult, whole⟩ := cullHello_spec split typedNodes untypedNodes enough
  have fewer := withoutAddresses_sublist otherNodes unspecNodes
  have nodesFewer : (otherNodes ++ withoutAddresses otherNodes unspecNodes).Sublist
        (helloNodes (parsedNeighbors mem ver handler fuel)) :=
    split ▸ fewer.append_left otherNodes
  refine ⟨result, otherNodes ++ withoutAddresses otherNodes unspecNodes, isResult,
      whole, (helloNodes_nodup _).sublist (nodesFewer.map _), ?_, ?_, ?_⟩
  · intro node isMem
    exact mem_helloNodes_iff.mp (nodesFewer.subset isMem)
  · intro index neigh isParsed
    have isNode := mem_helloNodes_iff.mpr isParsed
    rw [split, List.mem_append] at isNode
    have otherIff (other : HelloNeighbor (IpAddr ver)) :
        other ∈ parsedNeighbors mem ver handler fuel ∧ other.link ≠ .unspec ↔
          ∃ node ∈ otherNodes, node.2 = other := by
      rw [parsedNeighbors, List.mem_reverse, isList, List.mem_append, List.mem_map, List.mem_map]
      constructor
      · rintro ⟨isOther | ⟨node, isMem, rfl⟩, isTyped⟩
        · exact isOther
        · exact absurd (untypedNodes node isMem) isTyped
      · rintro ⟨node, isMem, rfl⟩
        exact ⟨Or.inl ⟨node, isMem, rfl⟩, typedNodes node isMem⟩
    rw [List.mem_append, withoutAddresses_eq_filter, mem_filter, decide_eq_true_eq]
    constructor
    · rintro (isOther | ⟨-, apart⟩) isUnspec other isMem isTyped same
      · exact typedNodes _ isOther isUnspec
      · obtain ⟨node, inOthers, rfl⟩ := (otherIff other).mp ⟨isMem, isTyped⟩
        exact apart node inOthers same.symm
    · intro kept
      rcases isNode with isOther | inUnspecs
      · exact Or.inl isOther
      · refine Or.inr ⟨inUnspecs, ?_⟩
        intro node inOthers same
        obtain ⟨isMem, isTyped⟩ := (otherIff node.2).mpr ⟨node, inOthers, rfl⟩
        exact kept (untypedNodes _ inUnspecs) node.2 isMem isTyped same.symm
  · rw [deserializeHello_of_isHello ver handler isHello] at ended ⊢
    have passesEnded : (helloPasses mem ver handler fuel).2 = true := ended
    simp only [concludeHello, passesEnded, if_true, map_some, some.injEq]
    rw [isList, cullUnspec_append typed untyped, map_append]
    congr 1
    rw [List.filter_map, withoutAddresses_eq_filter]
    congr 2
    funext node
    exact decide_eq_decide.mpr forall_mem_map

end Decoded

/-- An IPv4 HELLO with two unspecified entries, the first of which has the
address of its symmetric entry. -/
def repeatedAddressHello : Memory := ofBytes
    [1, 134, 0, 40, 10, 0, 0, 1, 1, 0, 0, 5, 0, 0, 134, 3, 0, 0, 0, 0,
      0, 0, 0, 12, 10, 0, 0, 2, 10, 0, 0, 3, 6, 0, 0, 8, 10, 0, 0, 2]

theorem deserializeHello_culls_repeatedAddress : IsHello repeatedAddressHello ∧ ∃ result nodes,
        cullHello 4
            ((parsedNeighbors repeatedAddressHello .inet .etxFf 4).foldl
              linkNeighbor HelloList.start) = some result ∧
          Segment result.cells result.neighbors nodes none ∧
          (deserializeHello repeatedAddressHello .inet .etxFf 4).message.map
              HelloMessage.neighbors = some (nodes.map Prod.snd) := by
  have isHello : IsHello repeatedAddressHello := Or.inl rfl
  obtain ⟨result, nodes, isResult, whole, -, -, -, isMessage⟩ :=
    deserializeHello_culls repeatedAddressHello .inet .etxFf
      (show IsHello repeatedAddressHello from isHello)
      (show (deserializeHello repeatedAddressHello .inet .etxFf 4).ended = true by decide +kernel)
      (show (parsedNeighbors repeatedAddressHello .inet .etxFf 4).length < 4 by decide +kernel)
  exact ⟨isHello, result, nodes, isResult, whole, isMessage⟩

end QosOlsr
