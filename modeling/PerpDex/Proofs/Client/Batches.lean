import Mathlib.Algebra.GroupWithZero.Nat
import PerpDex.Client.Loader
import PerpDex.Proofs.Bytes.Chunks

/-! Loading in batches against loading one by one. From a source in memory both give the same
accounts for the same addresses, whatever the size of the batches and the pause between them; of the
batches only the last one may be short. -/
namespace PerpDex

section Pieces

variable {α : Type} {size : Nat}

/-- Put end to end the pieces are the whole list. -/
theorem flatten_chunksOf (size : Nat) (items : List α) : (chunksOf size items).flatten = items := by
  induction items using chunksOf.induct size with
  | case1 => simp [chunksOf]
  | case2 first rest ih =>
    rw [chunksOf, List.flatten_cons, ih, List.cons_append, List.take_append_drop]

/-- The sizes of batches that serve `total` items: none is empty, none larger than `size`, and only
the last one may be smaller. -/
structure Batched (size total : Nat) (sizes : List Nat) : Prop where
  full : ∀ n ∈ sizes.dropLast, n = size
  nonempty : ∀ n ∈ sizes, 0 < n
  within : ∀ n ∈ sizes, n ≤ size
  sum_eq : sizes.sum = total

theorem Batched.cons {total : Nat} {sizes : List Nat} (rest : Batched size (total - size) sizes)
    (pos : 0 < size) (some : 0 < total) : Batched size total (min size total :: sizes) where
  full := by
    cases sizes with
    | nil => simp
    | cons next later =>
      -- another batch follows, so there was more than this one could hold
      have more : 0 < total - size := by
        have next_pos := rest.nonempty next List.mem_cons_self
        have sum := rest.sum_eq
        rw [List.sum_cons] at sum
        omega
      rw [List.dropLast_cons_cons, List.forall_mem_cons]
      exact ⟨by omega, rest.full⟩
  nonempty := List.forall_mem_cons.mpr ⟨by omega, rest.nonempty⟩
  within := List.forall_mem_cons.mpr ⟨by omega, rest.within⟩
  sum_eq := by
    rw [List.sum_cons, rest.sum_eq]
    omega

theorem batched_chunksOf (pos : 0 < size) (items : List α) :
    Batched size items.length ((chunksOf size items).map List.length) := by
  induction items using chunksOf.induct size with
  | case1 =>
    rw [chunksOf]
    exact ⟨by simp, by simp, by simp, rfl⟩
  | case2 first rest ih =>
    have length : (first :: rest.take (size - 1)).length = min size (first :: rest).length := by
      simp only [List.length_cons, List.length_take]
      omega
    have left : (rest.drop (size - 1)).length = (first :: rest).length - size := by
      simp only [List.length_drop, List.length_cons]
      omega
    rw [left] at ih
    rw [chunksOf, List.map_cons, length]
    exact ih.cons pos (Nat.succ_pos _)

end Pieces

namespace Loader

variable {accounts : List (Address × StoredAccount)} {loader : Loader}

def snapshot (accounts : List (Address × StoredAccount)) (address : Address) :
    Option AccountInfo :=
  (AccountSource.find accounts address).map (AccountInfo.ofStored address)

theorem load_ofList (memory : loader.source = .ofList accounts) (address : Address) :
    loader.load address = .ok (snapshot accounts address) := by
  rw [load, memory]
  rfl

theorem attach_find (accounts : List (Address × StoredAccount)) (chunk : List Address) :
    attach chunk (chunk.map (AccountSource.find accounts)) = chunk.map (snapshot accounts) := by
  rw [attach, List.zipWith_map_right, List.zipWith_self]
  rfl

/-- One request for each piece, answered in order. -/
theorem loadChunks_ofList (memory : loader.source = .ofList accounts) (pause : UInt64)
    (traffic : Traffic) (chunks : List (List Address)) :
    (loader.loadChunks pause traffic chunks).1 = .ok (chunks.flatten.map (snapshot accounts)) ∧
      (loader.loadChunks pause traffic chunks).2.batches =
        traffic.batches ++ chunks.map List.length := by
  induction chunks generalizing pause traffic with
  | nil => simp [loadChunks]
  | cons chunk chunks ih =>
    have answer : loader.source.getMany (traffic.wait pause).batches.length chunk =
        .ok (chunk.map (AccountSource.find accounts)) := by
      rw [memory]
      rfl
    obtain ⟨loaded, batches⟩ :=
      ih loader.chunkPause ((traffic.wait pause).request chunk.length)
    rw [loadChunks, answer]
    simp only [List.length_map, ne_eq, not_true_eq_false, if_false]
    constructor
    · rw [loaded, attach_find, List.flatten_cons, List.map_append]
      rfl
    · rw [batches]
      simp [Traffic.request, Traffic.wait]

theorem loadMany_ofList (memory : loader.source = .ofList accounts) (traffic : Traffic)
    (addresses : List Address) :
    (loader.loadMany traffic addresses).1 = .ok (addresses.map (snapshot accounts)) ∧
      (loader.loadMany traffic addresses).2.batches =
        traffic.batches ++ (chunksOf loader.chunkSize addresses).map List.length := by
  have loaded := loadChunks_ofList memory 0 traffic (chunksOf loader.chunkSize addresses)
  rwa [flatten_chunksOf] at loaded

theorem loadTyped_ofList (memory : loader.source = .ofList accounts) (layout : Layout)
    (address : Address) :
    loader.loadTyped layout address = decodeOption layout (snapshot accounts address) := by
  rw [loadTyped, load_ofList memory]
  rfl

/-- An account in memory fails to load as a layout exactly if it is there and its data do not
decode. -/
theorem loadTyped_eq_error_iff (memory : loader.source = .ofList accounts) (layout : Layout)
    (address : Address) (e : Error) :
    loader.loadTyped layout address = .error e ↔
      ∃ account, AccountSource.find accounts address = some account ∧
        layout.decode account.data = .error e := by
  rw [loadTyped_ofList memory, snapshot]
  cases AccountSource.find accounts address with
  | none => simp [decodeOption]
  | some account =>
    simp only [Option.map_some, decodeOption, map_eq_error_iff, Option.some.injEq, exists_eq_left']
    rfl

theorem loadManyTyped_ofList (memory : loader.source = .ofList accounts) (layout : Layout)
    (traffic : Traffic) (addresses : List Address) :
    (loader.loadManyTyped layout traffic addresses).1 =
      addresses.mapM (loader.loadTyped layout) := by
  have each : loader.loadTyped layout = decodeOption layout ∘ snapshot accounts :=
    funext (loadTyped_ofList memory layout)
  rw [loadManyTyped, each, ← List.mapM_map]
  dsimp only
  rw [(loadMany_ofList memory traffic addresses).1]
  rfl

def inMemory (accounts : List (Address × StoredAccount)) (size : Nat) (pause : UInt64) : Loader :=
  ((new (.ofList accounts)).withChunkSize size).withChunkPause pause

/-- Loading many accounts gives what loading each of them gives, in order and for every pace. The
requests are batches of the size asked for, as far as a request may have it, with the rest in the
last one. Decoded accounts come out in the same order, or the error of the first address whose data
do not decode. -/
theorem batches_agree_with_loads (accounts : List (Address × StoredAccount)) (size : Nat)
    (pause : UInt64) (traffic : Traffic) (layout : Layout) (addresses : List Address) :
    let loader := inMemory accounts size pause
    (∃ infos, (loader.loadMany traffic addresses).1 = .ok infos ∧
        addresses.map loader.load = infos.map .ok) ∧
      (∀ size' pause' traffic',
        ((inMemory accounts size' pause').loadMany traffic' addresses).1 =
          (loader.loadMany traffic addresses).1) ∧
      (∃ sizes, (loader.loadMany traffic addresses).2.batches = traffic.batches ++ sizes ∧
        Batched (max 1 (min size 100)) addresses.length sizes) ∧
      (∀ results, (loader.loadManyTyped layout traffic addresses).1 = .ok results ↔
        addresses.map (loader.loadTyped layout) = results.map .ok) ∧
      ∀ e, (loader.loadManyTyped layout traffic addresses).1 = .error e ↔
        ∃ before address after, addresses = before ++ address :: after ∧
          (∃ account, AccountSource.find accounts address = some account ∧
            layout.decode account.data = .error e) ∧
          ∀ other ∈ before, ∃ result, loader.loadTyped layout other = .ok result := by
  intro loader
  have memory (size : Nat) (pause : UInt64) :
      (inMemory accounts size pause).source = .ofList accounts := rfl
  obtain ⟨loaded, batches⟩ := loadMany_ofList (memory size pause) traffic addresses
  have typed := loadManyTyped_ofList (memory size pause) layout traffic addresses
  refine ⟨⟨_, loaded, ?_⟩, fun size' pause' traffic' => ?_, ⟨_, batches, ?_⟩, fun results => ?_,
    fun e => ?_⟩
  · rw [List.map_map]
    exact List.map_congr_left fun address _ => load_ofList (memory size pause) address
  · rw [loaded, (loadMany_ofList (memory size' pause') traffic' addresses).1]
  · exact batched_chunksOf loader.chunkSize_pos addresses
  · rw [typed, mapM_eq_ok_iff]
  · rw [typed, mapM_eq_error_iff]
    simp only [loadTyped_eq_error_iff (memory size pause)]
    rfl

def garbage : List (Address × StoredAccount) :=
  [(⟨1⟩, { owner := ⟨0⟩, executable := false, lamports := 1, rentEpoch := 0, data := [0, 0, 0] })]

theorem batches_agree_with_loads_of_garbage :
    ((inMemory garbage 2 0).loadManyTyped .nodeBank .none [⟨2⟩, ⟨1⟩, ⟨1⟩]).1 =
        .error (.sizeMismatch "NodeBank" 72 3) ∧
      ((inMemory garbage 2 0).loadMany .none [⟨2⟩, ⟨1⟩, ⟨1⟩]).2.batches = [2, 1] := by
  obtain ⟨-, -, -, -, refused⟩ :=
    batches_agree_with_loads garbage 2 0 .none .nodeBank [⟨2⟩, ⟨1⟩, ⟨1⟩]
  constructor
  · refine (refused _).mpr ⟨[⟨2⟩], ⟨1⟩, [⟨1⟩], rfl, ⟨_, rfl, rfl⟩, fun other member => ?_⟩
    obtain rfl := List.mem_singleton.mp member
    exact ⟨none, rfl⟩
  · rw [(loadMany_ofList rfl _ _).2]
    have pieces : chunksOf 2 [(⟨2⟩ : Address), ⟨1⟩, ⟨1⟩] = [[⟨2⟩, ⟨1⟩], [⟨1⟩]] := by simp [chunksOf]
    exact congrArg (List.map List.length) pieces

end Loader
end PerpDex
