import ChainSync.Proofs.Assoc
import ChainSync.Proofs.Ledger
import ChainSync.Sync.Persist
import Mathlib.Data.List.TakeWhile

/-!
# What one operation of the synchronizer does

Each operation touches the pool, and at most one of the requests, the
ledger and the cache in one of a few ways. Invariants of the node are
checked against these ways only.
-/

namespace ChainSync.Node

variable {n : Node}

/-! ## Requests narrowed down -/

def wanted (blocks : List (Hash × Request)) : List (Hash × Nat) :=
  blocks.map fun e => (e.1, e.2.height)

/-- Some requests are gone and none came or changed its height. -/
def Narrows (old new : List (Hash × Request)) : Prop :=
  (wanted new).Sublist (wanted old)

theorem Narrows.trans {a b c : List (Hash × Request)} (h : Narrows a b) (h' : Narrows b c) : Narrows a c :=
  List.Sublist.trans h' h

theorem Narrows.length_le {old new : List (Hash × Request)} (h : Narrows old new) : new.length ≤ old.length := by
  simpa [wanted] using List.Sublist.length_le h

theorem Narrows.mem {old new : List (Hash × Request)} (h : Narrows old new) {e : Hash × Request} (he : e ∈ new) :
    ∃ e' ∈ old, e'.1 = e.1 ∧ e'.2.height = e.2.height := by
  have hmem : (e.1, e.2.height) ∈ wanted old := h.subset (List.mem_map.2 ⟨e, he, rfl⟩)
  obtain ⟨e', he', heq⟩ := List.mem_map.1 hmem
  obtain ⟨h1, h2⟩ := Prod.mk.inj heq
  exact ⟨e', he', h1, h2⟩

theorem Narrows.keeps_or_shrinks {old new : List (Hash × Request)} (h : Narrows old new) {e : Hash × Request}
    (he : e ∈ old) : (∃ e' ∈ new, e'.2.height = e.2.height) ∨ new.length < old.length := by
  by_cases hlen : new.length = old.length
  · have heq : wanted new = wanted old := List.Sublist.eq_of_length h (by simpa [wanted] using hlen)
    have hmem : (e.1, e.2.height) ∈ wanted new := heq ▸ List.mem_map.2 ⟨e, he, rfl⟩
    obtain ⟨e', he', heq'⟩ := List.mem_map.1 hmem
    exact Or.inl ⟨e', he', (Prod.mk.inj heq').2⟩
  · have := h.length_le
    exact Or.inr (by omega)

theorem narrows_dropRequests (hashes : List Hash) (blocks : List (Hash × Request)) :
    Narrows blocks (dropRequests hashes blocks) :=
  List.Sublist.map _ List.filter_sublist

theorem narrows_erase (h : Hash) (blocks : List (Hash × Request)) : Narrows blocks (Assoc.erase h blocks) :=
  List.Sublist.map _ List.filter_sublist

theorem wanted_mapRequests (hashes : List Hash) {f : Request → Request} (hf : ∀ r, (f r).height = r.height)
    (blocks : List (Hash × Request)) : wanted (mapRequests hashes f blocks) = wanted blocks := by
  unfold wanted mapRequests
  rw [List.map_map]
  apply List.map_congr_left
  intro e _
  by_cases he : e.1 ∈ hashes
  · simp [he, hf]
  · simp [he]

theorem narrows_mapRequests (hashes : List Hash) {f : Request → Request} (hf : ∀ r, (f r).height = r.height)
    (blocks : List (Hash × Request)) : Narrows blocks (mapRequests hashes f blocks) := by
  unfold Narrows
  simp only [wanted_mapRequests hashes hf, List.Sublist.refl]

theorem height_blame (r : Request) : (blame r).height = r.height := by
  unfold blame
  split <;> rfl

theorem withPeer_eq {n n' : Node} {id : PeerId} {f : Peer → Peer × Except NetError Unit} {r : Except NetError Unit}
    (h : n.withPeer id f = (n', r)) :
    n' = n.setPool (n.pool.withPeer id f).1 ∧ (n.pool.withPeer id f).2 = r :=
  ⟨(congrArg Prod.fst h).symm, congrArg Prod.snd h⟩

/-! ## Overdue requests -/

theorem retryBlocks_eq (now : Instant) (batch : List (Hash × Request)) (n : Node) :
    ∃ pool blocks, n.retryBlocks now batch = (n.setPool pool).setBlocks blocks ∧ Narrows n.sync.blocks blocks := by
  unfold retryBlocks
  dsimp only
  split
  · exact ⟨n.pool, _, rfl, narrows_dropRequests _ _⟩
  · split
    · rename_i n' h
      obtain ⟨rfl, -⟩ := withPeer_eq h
      exact ⟨_, _, rfl, narrows_mapRequests _ (f := fun r => r.addFlight _) (fun _ => rfl) _⟩
    · rename_i n' e h
      obtain ⟨rfl, -⟩ := withPeer_eq h
      exact ⟨_, _, rfl, narrows_dropRequests _ _⟩

theorem checkBlocks_eq (now : Instant) (n : Node) :
    ∃ pool blocks, n.checkBlocks now = (n.setPool pool).setBlocks blocks ∧ Narrows n.sync.blocks blocks := by
  unfold checkBlocks
  dsimp only
  have hblamed := fun late stale excess => ((narrows_dropRequests stale n.sync.blocks).trans
    (narrows_mapRequests (late : List Hash) height_blame _)).trans (narrows_dropRequests excess _)
  split
  · exact ⟨_, _, rfl, hblamed _ _ _⟩
  · obtain ⟨pool, blocks, h, hn⟩ := retryBlocks_eq now _ _
    exact ⟨pool, blocks, h, (hblamed _ _ _).trans hn⟩

/-- The request for headers goes, stays, or is sent again for the same height. -/
theorem checkHeaders_eq (now : Instant) (n : Node) :
    ∃ pool header, n.checkHeaders now = (n.setPool pool).setHeader header ∧
      ∀ r, header = some r → ∃ r', n.sync.header = some r' ∧ r'.height = r.height := by
  unfold checkHeaders
  split
  · rename_i h
    exact ⟨n.pool, n.sync.header, rfl, fun r hr => ⟨r, hr, rfl⟩⟩
  · rename_i r h
    split
    · exact ⟨n.pool, none, rfl, fun _ hr => by cases hr⟩
    · rename_i f hf
      split
      · exact ⟨n.pool, n.sync.header, rfl, fun r hr => ⟨r, hr, rfl⟩⟩
      · split
        · exact ⟨n.pool, none, rfl, fun _ hr => by cases hr⟩
        · unfold retryHeaders
          dsimp only
          split
          · exact ⟨_, none, rfl, fun _ hr => by cases hr⟩
          · split
            · rename_i n' h'
              obtain ⟨rfl, -⟩ := withPeer_eq h'
              refine ⟨_, _, rfl, fun r' hr' => ?_⟩
              cases hr'
              exact ⟨r, h, rfl⟩
            · rename_i n' e h'
              obtain ⟨rfl, -⟩ := withPeer_eq h'
              exact ⟨_, none, rfl, fun _ hr => by cases hr⟩

theorem checkHeaders_of_none (now : Instant) (h : n.sync.header = none) : n.checkHeaders now = n := by
  unfold checkHeaders
  rw [h]

theorem checkBlocks_of_nil (now : Instant) (h : n.sync.blocks = []) : n.checkBlocks now = n := by
  have hsame : n.setBlocks [] = n := h ▸ rfl
  unfold checkBlocks
  simp [h, dropRequests, mapRequests, hsame, setPool]

/-! ## New requests -/

theorem syncHeaders_cases (now : Instant) (n : Node) :
    (∃ pool, n.syncHeaders now = n.setPool pool) ∨
      n.sync.header = none ∧ n.ledger.headerHeight - n.ledger.blockHeight < n.sync.config.lookAhead ∧
        ∃ p pool, n.pool.nextPeer? now (n.ledger.headerHeight + 1) = some p ∧
          n.syncHeaders now = (n.setPool pool).setHeader (some (.start now p.id (n.ledger.headerHeight + 1))) := by
  unfold syncHeaders
  dsimp only
  split
  · exact Or.inl ⟨n.pool, rfl⟩
  · rename_i hnone
    split
    · exact Or.inl ⟨n.pool, rfl⟩
    · rename_i hahead
      split
      · exact Or.inl ⟨n.pool, rfl⟩
      · rename_i p hp
        split
        · rename_i n' h
          obtain ⟨rfl, -⟩ := withPeer_eq h
          exact Or.inr ⟨by simpa using hnone, Nat.not_le.1 hahead, p, _, hp, rfl⟩
        · rename_i n' e h
          obtain ⟨rfl, -⟩ := withPeer_eq h
          exact Or.inl ⟨_, rfl⟩

theorem syncBlocks_cases (now : Instant) (n : Node) :
    (∃ pool, n.syncBlocks now = n.setPool pool) ∨
      n.sync.blocks = [] ∧ n.ledger.blockHeight < n.ledger.headerHeight ∧ 0 < n.batchLimit ∧
        ∃ p pool, n.pool.nextPeer? now (n.ledger.blockHeight + 1) = some p ∧
          n.syncBlocks now = (n.setPool pool).setBlocks (issue now p.id (n.missingBlocks p.bestHeight)) := by
  unfold syncBlocks
  dsimp only
  split
  · exact Or.inl ⟨n.pool, rfl⟩
  · rename_i hcond
    simp only [Bool.or_eq_true, Bool.not_eq_true', List.isEmpty_eq_false_iff, decide_eq_true_eq, not_or,
      Nat.not_le, ne_eq, Decidable.not_not] at hcond
    split
    · exact Or.inl ⟨n.pool, rfl⟩
    · rename_i p hp
      split
      · exact Or.inl ⟨n.pool, rfl⟩
      · split
        · rename_i n' h
          obtain ⟨rfl, -⟩ := withPeer_eq h
          exact Or.inr ⟨hcond.1.1, hcond.1.2, Nat.pos_of_ne_zero hcond.2, p, _, hp, rfl⟩
        · rename_i n' e h
          obtain ⟨rfl, -⟩ := withPeer_eq h
          exact Or.inl ⟨_, rfl⟩

theorem syncHeaders_of_sent {now : Instant} {p : Peer} {pool : Pool} (hnone : n.sync.header = none)
    (hahead : n.ledger.headerHeight - n.ledger.blockHeight < n.sync.config.lookAhead)
    (hp : n.pool.nextPeer? now (n.ledger.headerHeight + 1) = some p)
    (hsent : n.pool.withPeer p.id (·.getHeaders now (n.ledger.hashAt n.ledger.headerHeight)) = (pool, .ok ())) :
    n.syncHeaders now = (n.setPool pool).setHeader (some (.start now p.id (n.ledger.headerHeight + 1))) := by
  unfold syncHeaders
  simp [hnone, Nat.not_le.2 hahead, hp, withPeer, hsent]

theorem syncHeaders_of_idle {now : Instant}
    (h : n.sync.config.lookAhead ≤ n.ledger.headerHeight - n.ledger.blockHeight ∨
      n.pool.nextPeer? now (n.ledger.headerHeight + 1) = none) : n.syncHeaders now = n := by
  unfold syncHeaders
  rcases h with h | h <;> simp [h]

theorem syncBlocks_of_sent {now : Instant} {p : Peer} {pool : Pool} (hnil : n.sync.blocks = [])
    (hheader : n.ledger.blockHeight < n.ledger.headerHeight) (hlimit : 0 < n.batchLimit)
    (hp : n.pool.nextPeer? now (n.ledger.blockHeight + 1) = some p) (hbatch : n.missingBlocks p.bestHeight ≠ [])
    (hsent : n.pool.withPeer p.id (·.getData now .block ((n.missingBlocks p.bestHeight).map (·.2))) = (pool, .ok ())) :
    n.syncBlocks now = (n.setPool pool).setBlocks (issue now p.id (n.missingBlocks p.bestHeight)) := by
  unfold syncBlocks
  simp [hnil, Nat.not_le.2 hheader, Nat.ne_of_gt hlimit, hp, hbatch, withPeer, hsent]

theorem syncBlocks_of_complete (now : Instant) (h : n.ledger.headerHeight ≤ n.ledger.blockHeight) :
    n.syncBlocks now = n := by
  unfold syncBlocks
  simp [h]

/-! ## Batches -/

theorem length_missingBlocks_le (top : Nat) (n : Node) : (n.missingBlocks top).length ≤ n.batchLimit := by
  unfold missingBlocks
  refine Nat.le_trans (List.takeWhile_sublist _).length_le ?_
  rw [List.length_map]
  exact List.length_take_le _ _

/-- A batch names heights stored as headers only, within the peer's reach and not cached, by their hashes. -/
theorem of_mem_missingBlocks {top : Nat} {e : Nat × Hash} (he : e ∈ n.missingBlocks top) :
    n.ledger.blockHeight < e.1 ∧ e.1 ≤ n.ledger.headerHeight ∧ e.1 ≤ top ∧
      n.sync.cache.contains e.1 = false ∧ e.2 = n.ledger.hashAt e.1 := by
  unfold missingBlocks at he
  have hmem := (List.takeWhile_sublist _).subset he
  obtain ⟨h, hh, rfl⟩ := List.mem_map.1 hmem
  obtain ⟨hrange, hfree⟩ := List.mem_filter.1 (List.mem_of_mem_take hh)
  obtain ⟨i, hi, rfl⟩ := List.mem_range'.1 hrange
  refine ⟨by omega, by omega, by omega, by simpa using hfree, rfl⟩

/-- The height behind the stored blocks leads the batch, unless it is cached or its hash unknown. -/
theorem next_mem_missingBlocks {top : Nat} (hlimit : 0 < n.batchLimit)
    (hheader : n.ledger.blockHeight < n.ledger.headerHeight) (htop : n.ledger.blockHeight + 1 ≤ top)
    (hfree : n.sync.cache.contains (n.ledger.blockHeight + 1) = false)
    (hhash : (n.ledger.hashAt (n.ledger.blockHeight + 1)).isZero = false) :
    (n.ledger.blockHeight + 1, n.ledger.hashAt (n.ledger.blockHeight + 1)) ∈ n.missingBlocks top := by
  unfold missingBlocks
  obtain ⟨len, hlen⟩ : ∃ len, min n.ledger.headerHeight top - n.ledger.blockHeight = len + 1 :=
    ⟨min n.ledger.headerHeight top - n.ledger.blockHeight - 1, by omega⟩
  obtain ⟨limit, hlimit'⟩ : ∃ limit, n.batchLimit = limit + 1 := ⟨n.batchLimit - 1, by omega⟩
  dsimp only
  rw [hlen, hlimit', List.range'_succ, List.filter_cons_of_pos (by simp [hfree]), List.take_succ_cons,
    List.map_cons, List.takeWhile_cons_of_pos (by simp [hhash])]
  exact List.mem_cons_self ..

/-- With nothing cached the batch is the run of heights behind the stored blocks, as long as their hashes are
known. -/
theorem missingBlocks_of_empty {top : Nat} (hempty : n.sync.cache.entries = [])
    (hhash : ∀ h, n.ledger.blockHeight < h → h ≤ n.ledger.headerHeight → (n.ledger.hashAt h).isZero = false) :
    n.missingBlocks top =
      (List.range' (n.ledger.blockHeight + 1)
        (min n.batchLimit (min n.ledger.headerHeight top - n.ledger.blockHeight))).map
          fun h => (h, n.ledger.hashAt h) := by
  have hfree : ∀ h, n.sync.cache.contains h = false := fun h => by
    simp [BlockCache.contains, BlockCache.get?, hempty]
  have htake : ∀ base limit len, (List.range' base len).take limit = List.range' base (min limit len) := by
    intro base limit len
    rcases Nat.le_total limit len with h | h
    · rw [List.take_range'_of_length_ge h, Nat.min_eq_left h]
    · rw [List.take_range'_of_length_le h, Nat.min_eq_right h]
  unfold missingBlocks
  dsimp only
  rw [List.filter_eq_self.2 fun h _ => by simp [hfree h], htake, List.takeWhile_eq_self_iff.2]
  intro e he
  obtain ⟨h, hh, rfl⟩ := List.mem_map.1 he
  have hrange := List.mem_range'_1.1 hh
  have hknown := hhash h (by omega) (by omega)
  simp [hknown]

theorem mem_missingBlocks_of_empty {top : Nat} (hempty : n.sync.cache.entries = [])
    (hhash : ∀ h, n.ledger.blockHeight < h → h ≤ n.ledger.headerHeight → (n.ledger.hashAt h).isZero = false)
    {x : Nat × Hash} : x ∈ n.missingBlocks top ↔ n.ledger.blockHeight < x.1 ∧
      x.1 ≤ n.ledger.blockHeight + min n.batchLimit (min n.ledger.headerHeight top - n.ledger.blockHeight) ∧
        x.2 = n.ledger.hashAt x.1 := by
  rw [missingBlocks_of_empty hempty hhash, List.mem_map]
  constructor
  · rintro ⟨h, hh, rfl⟩
    have := List.mem_range'_1.1 hh
    exact ⟨by omega, by omega, rfl⟩
  · rintro ⟨hlow, hhigh, hx⟩
    exact ⟨x.1, List.mem_range'_1.2 (by omega), Prod.ext rfl hx.symm⟩

section
variable (now : Instant) (peer : PeerId)

def ask (blocks : List (Hash × Request)) (x : Nat × Hash) : List (Hash × Request) :=
  Assoc.set x.2 (.start now peer x.1) blocks

theorem issue_eq (batch : List (Nat × Hash)) : issue now peer batch = batch.foldl (ask now peer) [] := rfl

theorem of_mem_foldl_ask {e : Hash × Request} : ∀ (batch : List (Nat × Hash)) (acc : List (Hash × Request)),
    e ∈ batch.foldl (ask now peer) acc → e ∈ acc ∨ ∃ x ∈ batch, e = (x.2, .start now peer x.1)
  | [], _, he => Or.inl he
  | x :: batch, acc, he => by
    rcases of_mem_foldl_ask batch (ask now peer acc x) he with he | ⟨y, hy, rfl⟩
    · rcases Assoc.of_mem_set he with rfl | he
      · exact Or.inr ⟨x, List.mem_cons_self .., rfl⟩
      · exact Or.inl he
    · exact Or.inr ⟨y, List.mem_cons_of_mem _ hy, rfl⟩

theorem exists_mem_foldl_ask {h : Hash} : ∀ (batch : List (Nat × Hash)) (acc : List (Hash × Request)),
    ((∃ e ∈ acc, e.1 = h) ∨ ∃ x ∈ batch, x.2 = h) → ∃ e ∈ batch.foldl (ask now peer) acc, e.1 = h
  | [], _, hh => by simpa using hh
  | x :: batch, acc, hh => by
    refine exists_mem_foldl_ask batch (ask now peer acc x) ?_
    rcases hh with ⟨e, he, rfl⟩ | ⟨y, hy, rfl⟩
    · exact Or.inl (Assoc.exists_mem_set _ _ he)
    · rcases List.mem_cons.1 hy with rfl | hy
      · exact Or.inl ⟨_, Assoc.mem_set_self _ _ _, rfl⟩
      · exact Or.inr ⟨y, hy, rfl⟩

theorem length_foldl_ask_le : ∀ (batch : List (Nat × Hash)) (acc : List (Hash × Request)),
    (batch.foldl (ask now peer) acc).length ≤ acc.length + batch.length
  | [], _ => Nat.le_refl _
  | x :: batch, acc => by
    have hset : (ask now peer acc x).length ≤ acc.length + 1 := Assoc.length_set_le _ _ _
    have := length_foldl_ask_le batch (ask now peer acc x)
    simp only [List.foldl_cons, List.length_cons]
    omega

variable {now peer} {batch : List (Nat × Hash)}

theorem of_mem_issue {e : Hash × Request} (he : e ∈ issue now peer batch) :
    ∃ x ∈ batch, e = (x.2, .start now peer x.1) := by
  rcases of_mem_foldl_ask now peer batch [] he with he | he
  · cases he
  · exact he

theorem exists_mem_issue (now : Instant) (peer : PeerId) {x : Nat × Hash} (hx : x ∈ batch) :
    ∃ e ∈ issue now peer batch, e.1 = x.2 :=
  exists_mem_foldl_ask now peer batch [] (Or.inr ⟨x, hx, rfl⟩)

theorem length_issue_le (now : Instant) (peer : PeerId) (batch : List (Nat × Hash)) :
    (issue now peer batch).length ≤ batch.length := by
  simpa [issue_eq] using length_foldl_ask_le now peer batch []

end

/-! ## Deliveries -/

variable [Digest]

/-- Headers that answer the outstanding request go into the ledger; others change nothing. -/
theorem receiveHeaders_cases (peer : PeerId) (headers : List Header) (n : Node) :
    n.receiveHeaders peer headers = n ∨
      ∃ r first pool, n.sync.header = some r ∧ headers.head? = some first ∧ first.height = r.height ∧
        n.ledger.headerHeight < first.height ∧
        n.receiveHeaders peer headers =
          ({ n with ledger := (n.ledger.addHeaders headers).1 }.setPool pool).setHeader none := by
  unfold receiveHeaders
  split
  · exact Or.inl rfl
  · exact Or.inl rfl
  · rename_i r first rest hr
    split
    · exact Or.inl rfl
    · rename_i hcond
      simp only [Bool.or_eq_true, decide_eq_true_eq, not_or, Nat.not_le, ne_eq, Decidable.not_not] at hcond
      refine Or.inr ⟨r, first, ?_⟩
      dsimp only
      split
      · exact ⟨_, hr, rfl, hcond.1, hcond.2, rfl⟩
      · exact ⟨n.pool, hr, rfl, hcond.1, hcond.2, rfl⟩

theorem receiveHeaders_of_none (peer : PeerId) (headers : List Header) (h : n.sync.header = none) :
    n.receiveHeaders peer headers = n := by
  unfold receiveHeaders
  rw [h]

theorem receiveHeaders_of_linked (peer : PeerId) {headers : List Header} {r : Request} {first : Header}
    (hr : n.sync.header = some r) (hfirst : headers.head? = some first) (hheight : first.height = r.height)
    (hnew : n.ledger.headerHeight < first.height) (hall : (n.ledger.addHeaders headers).2 = headers.length) :
    n.receiveHeaders peer headers = ({ n with ledger := (n.ledger.addHeaders headers).1 } : Node).setHeader none := by
  cases headers with
  | nil => cases hfirst
  | cons x rest =>
    obtain rfl : x = first := Option.some.inj hfirst
    unfold receiveHeaders
    rw [hr]
    dsimp only
    rw [if_neg (by simp [hheight ▸ hnew, hheight]), hall, if_neg (Nat.lt_irrefl _)]

omit [Digest] in
def noteSpeed (now : Instant) (peer : PeerId) (size : Nat) (r : Request) (n : Node) : Node :=
  match (r.flight? peer).or r.recent?, n.pool.peer? peer with
  | some f, some _ => n.setPool (n.pool.modify peer (·.addSpeed (deliverySpeed size (f.elapsed now))))
  | _, _ => n

omit [Digest] in
theorem noteSpeed_cases (now : Instant) (peer : PeerId) (size : Nat) (r : Request) (n : Node) :
    noteSpeed now peer size r n = n ∨
      ∃ speed, noteSpeed now peer size r n = n.setPool (n.pool.modify peer (·.addSpeed speed)) := by
  unfold noteSpeed
  split
  · exact Or.inr ⟨_, rfl⟩
  · exact Or.inl rfl

omit [Digest] in
@[simp] theorem ledger_noteSpeed (now : Instant) (peer : PeerId) (size : Nat) (r : Request) (n : Node) :
    (noteSpeed now peer size r n).ledger = n.ledger := by
  rcases noteSpeed_cases now peer size r n with h | ⟨speed, h⟩ <;> rw [h]
  rfl

omit [Digest] in
@[simp] theorem sync_noteSpeed (now : Instant) (peer : PeerId) (size : Nat) (r : Request) (n : Node) :
    (noteSpeed now peer size r n).sync = n.sync := by
  rcases noteSpeed_cases now peer size r n with h | ⟨speed, h⟩ <;> rw [h]
  rfl

theorem receiveBlock_of_requested {now : Instant} {peer : PeerId} {b : Block} {raw : Bytes} {r : Request}
    (h : n.blockRequest? b.hash = some r) :
    n.receiveBlock now peer b raw =
      let n' := noteSpeed now peer raw.length r (n.setBlocks (Assoc.erase b.hash n.sync.blocks))
      if n'.ledger.headerHeight + 1 < b.height || b.height ≤ n'.ledger.blockHeight then n'
      else n'.setCache (n'.sync.cache.insert ⟨b, raw, peer⟩).1 := by
  unfold receiveBlock
  rw [h]
  rfl

theorem receiveBlock_of_none (now : Instant) (peer : PeerId) {b : Block} (raw : Bytes)
    (h : n.blockRequest? b.hash = none) : n.receiveBlock now peer b raw = n := by
  unfold receiveBlock
  rw [h]

/-- A block that was asked for is crossed off, and goes into the cache when its height is of use. -/
theorem receiveBlock_cases (now : Instant) (peer : PeerId) (b : Block) (raw : Bytes) (n : Node) :
    n.blockRequest? b.hash = none ∧ n.receiveBlock now peer b raw = n ∨
      ∃ r pool, n.blockRequest? b.hash = some r ∧
        ((n.ledger.headerHeight + 1 < b.height ∨ b.height ≤ n.ledger.blockHeight) ∧
            n.receiveBlock now peer b raw = (n.setPool pool).setBlocks (Assoc.erase b.hash n.sync.blocks) ∨
          n.ledger.blockHeight < b.height ∧
            n.receiveBlock now peer b raw =
              ((n.setPool pool).setBlocks (Assoc.erase b.hash n.sync.blocks)).setCache
                (n.sync.cache.insert ⟨b, raw, peer⟩).1) := by
  cases h : n.blockRequest? b.hash with
  | none => exact Or.inl ⟨rfl, receiveBlock_of_none now peer raw h⟩
  | some r =>
    rw [receiveBlock_of_requested h]
    have hpool : ∃ pool, noteSpeed now peer raw.length r (n.setBlocks (Assoc.erase b.hash n.sync.blocks)) =
        (n.setPool pool).setBlocks (Assoc.erase b.hash n.sync.blocks) := by
      rcases noteSpeed_cases now peer raw.length r (n.setBlocks (Assoc.erase b.hash n.sync.blocks)) with
        hn | ⟨speed, hn⟩
      · exact ⟨n.pool, hn⟩
      · exact ⟨_, hn⟩
    obtain ⟨pool, hpool⟩ := hpool
    refine Or.inr ⟨r, pool, rfl, ?_⟩
    rw [hpool]
    dsimp only
    split
    · rename_i hcond
      simp only [Bool.or_eq_true, decide_eq_true_eq] at hcond
      exact Or.inl ⟨hcond, rfl⟩
    · rename_i hcond
      simp only [Bool.or_eq_true, decide_eq_true_eq, not_or, Nat.not_le] at hcond
      exact Or.inr ⟨hcond.2, rfl⟩

/-! ## Persisting -/

omit [Digest] in
def pruned (n : Node) : BlockCache :=
  (n.sync.cache.pruneThrough n.ledger.blockHeight).1

omit [Digest] in
def ready? (n : Node) : Option CachedBlock :=
  n.pruned.get? (n.ledger.blockHeight + 1)

omit [Digest] in
def unloaded (n : Node) : Node :=
  n.setCache (n.pruned.take (n.ledger.blockHeight + 1)).1

def stored (b : Block) (n : Node) : Node :=
  { n.unloaded with ledger := n.ledger.pushBlock b, pool := n.pool.blockPersisted b }

theorem persist_of_fits {e : CachedBlock} {b : Block} (h : n.ready? = some e) (hraw : Codec.ofBytes Block e.raw = .ok b)
    (hb : n.ledger.Fits b) : n.persist = ((n.stored b).persist.1, (n.stored b).persist.2 + 1) := by
  have hadd : n.ledger.addBlock e.raw = .ok (n.ledger.pushBlock b, b) := Ledger.addBlock_eq_ok_iff.2 ⟨hraw, hb, rfl⟩
  rw [persist]
  dsimp only
  split
  · rename_i he
    exact absurd (h.symm.trans he) (by simp)
  · rename_i e' he
    obtain rfl : e = e' := Option.some.inj (h.symm.trans he)
    rw [hadd]
    rfl

theorem persist_of_rejected {e : CachedBlock} {err : LedgerError} (h : n.ready? = some e)
    (herr : n.ledger.addBlock e.raw = .error err) :
    n.persist = (n.unloaded.setPool (n.pool.penaliseError e.peer).1, 0) := by
  rw [persist]
  dsimp only
  split
  · rename_i he
    exact absurd (h.symm.trans he) (by simp)
  · rename_i e' he
    obtain rfl : e = e' := Option.some.inj (h.symm.trans he)
    rw [herr]
    rfl

/-- What survives each round of a pass that stores a block holds up to the last round, which finds nothing
to store or a block that the ledger rejects. -/
theorem persist_preserves {P Q : Node → Prop} (hstop : ∀ n, P n → n.ready? = none → Q (n.setCache n.pruned))
    (hstore : ∀ n e b, P n → n.ready? = some e → Codec.ofBytes Block e.raw = .ok b → n.ledger.Fits b → P (n.stored b))
    (hgive : ∀ n e err pool, P n → n.ready? = some e → n.ledger.addBlock e.raw = .error err →
      Q (n.unloaded.setPool pool)) (n : Node) (hn : P n) : Q n.persist.1 := by
  fun_induction persist n with
  | case1 n base pruned h => exact hstop n hn h
  | case2 n base pruned e h n' l b hadd n'' count hrest ih =>
    obtain ⟨hraw, hb, rfl⟩ := Ledger.addBlock_eq_ok_iff.1 hadd
    rw [hrest] at ih
    exact ih (hstore n e b hn h hraw hb)
  | case3 n base pruned e h n' err hadd => exact hgive n e err _ hn h hadd

end ChainSync.Node
