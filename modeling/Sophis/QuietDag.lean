import Mathlib.Data.Nat.ModEq
import Mathlib.Tactic.NormNum.GCD
import Sophis.CommittedChains

namespace Sophis

open ByteCodec ExceptLoop Function List MachineWord Option ParentTree Tree UtxoStores

/-!
# Blocks that move nothing

On a network without subsidies, blocks that hold nothing but their coinbase
leave the unspent outputs as they are. Every tree of selected parents is the
tree of such blocks, and all of them are valid.
-/

def quietParams : Params := { mainnetParams with
    preDeflationaryPhaseBaseSubsidy := 0
    deflationaryPhaseDaaScore := 1099511627776 }

def quietExternal : External where
  toHashers := { Hashers.zero with
    sha3 := fun bytes => .ofPrefix 48 (1 :: leBytes 47 (leValue bytes))
    transactionIdHash := fingerprint
    transactionHash := fingerprint }
  parseAll _ := []

/-- A coinbase without outputs, of a miner who declares an empty script. -/
def quietCoinbase (blueScore : UInt64) : Transaction := genesisCoinbase
    (leBytes 8 blueScore.toNat ++ leBytes 8 0 ++ leBytes 2 0 ++ leBytes 1 0)

def quietBlock (hash parent : Hash) (blueScore : UInt64) : Block where
  header := {
    hash
    directParents := [parent]
    hashMerkleRoot := calcHashMerkleRoot quietExternal.toHashers [quietCoinbase blueScore]
    daaScore := blueScore
    blueScore }
  transactions := [quietCoinbase blueScore]

def quietCoinbaseData (blueScore : UInt64) : CoinbaseData := ⟨blueScore, 0, ⟨⟨0, []⟩, []⟩⟩

theorem quietCoinbase_deserialized (blueScore : UInt64) :
    (CoinbaseManager.ofParams quietParams).deserializeCoinbasePayload
        (quietCoinbase blueScore).payload =
      .ok (quietCoinbaseData blueScore) := by
  have value : u64At (quietCoinbase blueScore).payload 0 = blueScore := by
    have bytes : slice (quietCoinbase blueScore).payload 0 8 = leBytes 8 blueScore.toNat := rfl
    rw [u64At, bytes, leValue_leBytes blueScore.toNat_lt, UInt64.ofNat_toNat]
  have parsed : (CoinbaseManager.ofParams quietParams).deserializeCoinbasePayload
        (quietCoinbase blueScore).payload =
      .ok (quietCoinbaseData (u64At (quietCoinbase blueScore).payload 0)) :=
    rfl
  rw [parsed, value]

theorem quietParams_subsidy {daaScore : UInt64} (early : daaScore < 1099511627776) :
    (CoinbaseManager.ofParams quietParams).calcBlockSubsidy daaScore = 0 :=
  if_pos early

theorem quietBlock_accepted {blueScore : UInt64} (early : blueScore < 1099511627776)
    (hash parent : Hash) :
    BodyAccepted quietExternal quietParams ⟨fun _ => true, .ok 0⟩
      (quietBlock hash parent blueScore) := by
  refine ⟨⟨(0, 0, 0), rfl⟩, ?_⟩
  have declared : checkCoinbaseBlueScoreAndSubsidy quietParams
      (quietBlock hash parent blueScore) = .ok () := by
    change (Except.mapError _ ((CoinbaseManager.ofParams quietParams).deserializeCoinbasePayload
      (quietCoinbase blueScore).payload) >>= _) = _
    rw [quietCoinbase_deserialized]
    simp [Except.mapError, quietCoinbaseData, quietBlock, quietParams_subsidy early, bind_eq_ok]
  simp only [validateBodyInContext, declared]
  rfl

theorem quietCoinbase_written : ∃ front back, ∀ blueScore,
    writeTransaction (quietCoinbase blueScore).encodingFlags (quietCoinbase blueScore) =
      front ++ (leBytes 8 blueScore.toNat ++ back) := by
  -- what the fields before the blue score and behind it are written as
  refine ⟨leBytes 2 0 ++ writeLen 0 ++ writeLen 0 ++ leBytes 8 0 ++ subnetworkIdCoinbase.bytes ++
    leBytes 8 0 ++ writeLen 19, leBytes 8 0 ++ leBytes 2 0 ++ leBytes 1 0, fun _ => ?_⟩
  simp only [append_assoc]
  rfl

theorem fingerprint_inj_at {front back : List UInt8} {first second : Nat}
    (firstSmall : first < 2305843009213693951) (secondSmall : second < 2305843009213693951)
    (eq : fingerprint (front ++ (leBytes 8 first ++ back)) =
      fingerprint (front ++ (leBytes 8 second ++ back))) : first = second := by
  have modulus {value : Nat} : value % 2305843009213693951 < 256 ^ 8 :=
    (Nat.mod_lt _ (by decide)).trans (by decide)
  have residues : leValue (front ++ (leBytes 8 first ++ back)) ≡
      leValue (front ++ (leBytes 8 second ++ back)) [MOD 2305843009213693951] :=
    eq_of_ofPrefix_leBytes_eq modulus modulus (by decide) eq
  have read {value : Nat} (small : value < 2305843009213693951) :
      leValue (leBytes 8 value) = value :=
    leValue_leBytes (small.trans (by decide))
  simp only [leValue_append, length_leBytes, read firstSmall, read secondSmall] at residues
  have scaled := Nat.ModEq.add_left_cancel' _ residues
  have coprime : Nat.gcd 2305843009213693951 (256 ^ front.length) = 1 :=
    Nat.Coprime.pow_right _ (by norm_num)
  have shifted := Nat.ModEq.cancel_left_of_coprime coprime scaled
  have exactly := Nat.ModEq.add_right_cancel' _ shifted
  exact exactly.eq_of_lt_of_lt firstSmall secondSmall

/-- A tree of blocks with their hashes, not too high for the scores. -/
structure QuietTree (Node : Type) extends ParentTree.Tree Node where
  hash : Node → Hash
  hash_injective : Injective hash
  height_lt : ∀ node, height node < 1099511627776

variable {Node : Type} (tree : QuietTree Node)

def QuietTree.blueScore (node : Node) : UInt64 := UInt64.ofNat (tree.height node)

def QuietTree.block (node : Node) : Block :=
  quietBlock (tree.hash node) (tree.hash (tree.parent node)) (tree.blueScore node)

theorem QuietTree.toNat_blueScore (node : Node) : (tree.blueScore node).toNat = tree.height node :=
  UInt64.toNat_ofNat_of_lt' ((tree.height_lt node).trans (by decide))

theorem QuietTree.blueScore_lt (node : Node) : tree.blueScore node < 1099511627776 := by
  rw [UInt64.lt_iff_toNat_lt, tree.toNat_blueScore]
  exact tree.height_lt node

/-- Every block merges its selected parent only. -/
def quietDag : BlockDag quietExternal quietParams Node where
  toTree := tree.toTree
  block := tree.block
  ghostdag node := ⟨tree.blueScore node, tree.hash (tree.parent node),
    [tree.hash (tree.parent node)], []⟩
  mergeset _ := []
  nonDaa _ := []
  genesis := ⟨_, _, rfl, quietCoinbase_deserialized _, rfl⟩
  bodies node _ := ⟨_, quietBlock_accepted (tree.blueScore_lt node) _ _⟩
  root_not_merged _ := not_mem_nil
  selectedParent_blue _ _ := mem_singleton_self _
  coloured_merged node _ hash coloured := ⟨tree.parent node, mem_cons_self,
    (mem_singleton.mp coloured).symm⟩
  blueScore_eq node notRoot := by
    change (tree.blueScore node).toNat = (tree.blueScore (tree.parent node)).toNat + 1
    rw [tree.toNat_blueScore, tree.toNat_blueScore, tree.height_parent node notRoot]
  scripts_fit node tx member output isOutput := by
    cases mem_singleton.mp member
    cases isOutput

theorem quietDag_collisionFree : (quietDag tree).CollisionFree := by
  rintro first second ⟨node, isFirst⟩ ⟨other, isSecond⟩ eq
  cases mem_singleton.mp isFirst
  cases mem_singleton.mp isSecond
  obtain ⟨front, back, written⟩ := quietCoinbase_written
  change fingerprint (writeTransaction _ (quietCoinbase _)) =
    fingerprint (writeTransaction _ (quietCoinbase _)) at eq
  have small (node : Node) : (tree.blueScore node).toNat < 2305843009213693951 := by
    rw [tree.toNat_blueScore]
    exact (tree.height_lt node).trans (by decide)
  rw [written, written] at eq
  have scores := UInt64.toNat.inj (fingerprint_inj_at (small node) (small other) eq)
  change writeTransaction _ (quietCoinbase _) = writeTransaction _ (quietCoinbase _)
  rw [scores]

/-- A node that finds the commitments of all headers right. -/
def agreeing : Judging where
  environment := ⟨none, .inOrder, fun _ => false⟩
  cuts := fun _ => .whole
  utxoCommitmentMatches := fun _ => true
  acceptedIdMerkleRootMatches := fun _ => true
  pruningPointMatches := true

def quietContext (selectedParent : Node) : UtxoProcessingContext where
  environment := agreeing.environment
  mergesetDiff := .empty
  acceptance := [⟨tree.hash selectedParent, agreeing.environment, .skipScriptChecks, []⟩]
  mergesetRewards := [(tree.hash selectedParent, ⟨0, 0, ⟨0, []⟩⟩)]

theorem QuietTree.reward (node : Node) :
    blockRewardData quietParams 0 (tree.block node) = some ⟨0, 0, ⟨0, []⟩⟩ := by
  have coinbase : (tree.block node).coinbase? = some (quietCoinbase (tree.blueScore node)) := rfl
  rw [blockRewardData, coinbase, bind_eq_bind, bind_some, quietCoinbase_deserialized]
  rfl

/-- Nothing is accepted on top of any block. -/
theorem quietDag_calculated (elementHash : List UInt8 → Hash) (view : UtxoView)
    (povDaaScore : UInt64) (selectedParent : Node) (multiset : MuHash) :
    calculateUtxoStateWithMuhash elementHash quietExternal.toHashers
        quietParams agreeing.environment view povDaaScore
        ((quietDag tree).block selectedParent) [] agreeing.cuts multiset =
      some (quietContext tree selectedParent,
        (multiset.addTransaction elementHash quietExternal.toHashers
          ⟨quietCoinbase (tree.blueScore selectedParent), [], rfl⟩ povDaaScore).combine .new) := by
  have merged : calculateUtxoStateWithMuhash elementHash
        quietExternal.toHashers quietParams agreeing.environment view
        povDaaScore ((quietDag tree).block selectedParent) []
        agreeing.cuts multiset =
      (blockRewardData quietParams 0 (tree.block selectedParent)).bind fun reward => some
        ({ quietContext tree selectedParent with
          mergesetRewards := [(tree.hash selectedParent, reward)] },
        (multiset.addTransaction elementHash quietExternal.toHashers
          ⟨quietCoinbase (tree.blueScore selectedParent), [], rfl⟩ povDaaScore).combine .new) := rfl
  rw [merged, tree.reward]
  rfl

theorem quietDag_coinbase_verified (node : Node) :
    verifyCoinbaseTransaction quietExternal.toHashers quietParams
        (quietCoinbase (tree.blueScore node)) (tree.blueScore node) ((quietDag tree).ghostdag node)
        (quietContext tree (tree.parent node)).reward ((quietDag tree).nonDaa node) =
      .ok () := by
  have outputs : blueOutputs (quietContext tree (tree.parent node)).reward
      (((quietDag tree).ghostdag node).rewardedBlues ((quietDag tree).nonDaa node)) = .ok [] := by
    change blueOutputs _ [tree.hash (tree.parent node)] = _
    simp [blueOutputs, quietContext, UtxoProcessingContext.reward]
    rfl
  have expected : (CoinbaseManager.ofParams
      quietParams).expectedCoinbaseTransaction (tree.blueScore node)
        (quietCoinbaseData (tree.blueScore node)).minerData ((quietDag tree).ghostdag node)
        (quietContext tree (tree.parent node)).reward ((quietDag tree).nonDaa node) =
      .ok ⟨quietCoinbase (tree.blueScore node), false⟩ := by
    rw [CoinbaseManager.expectedCoinbaseTransaction, outputs,
      quietParams_subsidy (tree.blueScore_lt node)]
    rfl
  rw [verifyCoinbaseTransaction, quietCoinbase_deserialized]
  simp only [Except.toOption, orPanic, ok_bind, expected, reject_eq_ok, not_not]

theorem quietDag_verified (view : UtxoView) (node : Node) (multiset : MuHash) :
    verifyChainBlock (quietDag tree) agreeing
      (quietContext tree (tree.parent node)) multiset view node = .ok () := by
  have coinbase : ((quietDag tree).block node).coinbase? =
      some (quietCoinbase (tree.blueScore node)) := rfl
  have verified : verifyCoinbaseTransaction quietExternal.toHashers
      quietParams (quietCoinbase (tree.blueScore node))
      ((quietDag tree).block node).header.daaScore
      ((quietDag tree).ghostdag node)
      (quietContext tree (tree.parent node)).reward
      ((quietDag tree).nonDaa node) = .ok () :=
    quietDag_coinbase_verified tree node
  have transactions : validateTransactionsInParallel quietExternal.toHashers
      quietParams (quietContext tree (tree.parent node)).environment
      ((quietDag tree).block node).transactions
      ((quietContext tree (tree.parent node)).mergesetDiff.compose view)
      ((quietDag tree).block node).header.daaScore .full = some [] := rfl
  simp only [verifyChainBlock, verifyExpectedUtxoState, coinbase, orPanic,
    ok_bind, verified, transactions, Except.mapError]
  rfl

theorem quietDag_judged (elementHash : List UInt8 → Hash) (view : UtxoView) (node : Node)
    (multiset : MuHash) :
    ∃ next, judgeChainBlock elementHash (quietDag tree) agreeing view
      (tree.parent node) node multiset = .ok (quietContext tree (tree.parent node), next) := by
  have ran := quietDag_calculated tree elementHash view
    ((quietDag tree).block node).header.daaScore (tree.parent node) multiset
  generalize (multiset.addTransaction elementHash quietExternal.toHashers
    ⟨quietCoinbase (tree.blueScore (tree.parent node)), [], rfl⟩
    ((quietDag tree).block node).header.daaScore).combine .new = next at ran
  refine ⟨next, ?_⟩
  change (orPanic (calculateUtxoStateWithMuhash elementHash quietExternal.toHashers quietParams
    agreeing.environment view ((quietDag tree).block node).header.daaScore
    ((quietDag tree).block (tree.parent node)) [] agreeing.cuts multiset) >>= _) = _
  rw [ran]
  simp only [orPanic, ok_bind, quietDag_verified]
  rfl

section

variable {Node : Type} [DecidableEq Node] {tree : QuietTree Node}
  {stores : UtxoStores Node} {elementHash : List UInt8 → Hash}
  {virtualUtxo : UtxoSet}

/-- Stores of a DAG of quiet blocks: nothing is disqualified and nothing has
moved. -/
structure UtxoStores.Quiet (tree : QuietTree Node) (stores : UtxoStores Node) : Prop
    extends stores.ChainClosed (quietDag tree) where
  status_known : ∀ node, ∃ status, stores.statuses node = some status ∧
    status ≠ .disqualifiedFromChain
  diff_empty : ∀ node diff, stores.utxoDiffs node = some diff → diff = .empty

omit [DecidableEq Node] in
theorem accumulateDiff_empty :
    (accumulateDiff .empty .empty : Except (ReorgPanic Node) UtxoDiff) = .ok .empty :=
  rfl

variable {node : Node}

section

variable (quiet : stores.Quiet tree)
include quiet

theorem UtxoStores.Quiet.walkUpStep_valid (valid : stores.Valid node) :
    walkUpStep elementHash (quietDag tree) (fun _ => agreeing) virtualUtxo
        ⟨tree.parent node, .empty, stores⟩ (tree.parent node, node) =
      .ok ⟨node, .empty, stores⟩ := by
  obtain ⟨diff, kept⟩ := isSome_iff_exists.mp valid
  cases quiet.diff_empty node diff kept
  simp only [walkUpStep, ne_eq, not_true_eq_false, if_false, kept, accumulateDiff_empty, ok_bind]
  rfl

theorem UtxoStores.Quiet.walkUpStep_new (new : stores.utxoDiffs node = none) {multiset : MuHash}
    (kept : stores.utxoMultisets (tree.parent node) = some multiset) :
    ∃ next, walkUpStep elementHash (quietDag tree) (fun _ => agreeing) virtualUtxo
        ⟨tree.parent node, .empty, stores⟩ (tree.parent node, node) =
      .ok ⟨node, .empty, stores.commitUtxoState node .empty next⟩ := by
  obtain ⟨status, known, qualified⟩ := quiet.status_known node
  obtain ⟨next, judged⟩ := quietDag_judged tree elementHash
    (UtxoDiff.empty.compose virtualUtxo.lookup) node multiset
  refine ⟨next, ?_⟩
  simp only [walkUpStep, ne_eq, not_true_eq_false, if_false, new, unwrapOr_eq_ok.mpr known, ok_bind,
    qualified, verifyNext, unwrapOr_eq_ok.mpr kept, judged]
  rfl

theorem UtxoStores.Quiet.walkUpStep_missing (new : stores.utxoDiffs node = none)
    (missing : stores.utxoMultisets (tree.parent node) = none) :
    walkUpStep elementHash (quietDag tree) (fun _ => agreeing) virtualUtxo
        ⟨tree.parent node, .empty, stores⟩ (tree.parent node, node) =
      .error (.missingMultiset (tree.parent node)) := by
  obtain ⟨status, known, qualified⟩ := quiet.status_known node
  simp only [walkUpStep, ne_eq, not_true_eq_false, if_false, new,
    unwrapOr_eq_ok.mpr known, ok_bind, qualified, verifyNext, missing]
  rfl

end

/-- The stores after a whole chain is committed. -/
structure UtxoStores.ExtendedTo (tree : QuietTree Node) (target : Node)
    (stores next : UtxoStores Node) : Prop where
  quiet : next.Quiet tree
  valid_iff : ∀ node, next.Valid node ↔ stores.Valid node ∨ node ∈ tree.chain target
  multiset_iff : ∀ node, (next.utxoMultisets node).isSome = true ↔
    (stores.utxoMultisets node).isSome = true ∨ ¬ stores.Valid node ∧ node ∈ tree.chain target

variable {target : Node}

omit [DecidableEq Node] in
theorem UtxoStores.Quiet.extendedTo_valid (quiet : stores.Quiet tree)
    (valid : stores.Valid target) :
    stores.ExtendedTo tree target stores where
  quiet
  valid_iff _ := ⟨.inl, fun either => either.elim id (quiet.toChainClosed.chain_valid valid)⟩
  multiset_iff _ := ⟨.inl, fun either => either.elim id fun new =>
    absurd (quiet.toChainClosed.chain_valid valid new.2) new.1⟩

theorem UtxoStores.ExtendedTo.commit {next : UtxoStores Node}
    (extended : stores.ExtendedTo tree (tree.parent target) next) (ne : target ≠ tree.root)
    (new : ¬ stores.Valid target) (multiset : MuHash) :
    stores.ExtendedTo tree target (next.commitUtxoState target .empty multiset) := by
  have chain : ∀ node, node ∈ tree.chain target ↔
      node = target ∨ node ∈ tree.chain (tree.parent target) := by
    intro node
    rw [tree.chain_of_ne ne, mem_cons]
  refine {
    quiet := {
      root_valid := valid_commit_iff.mpr (.inr extended.quiet.root_valid)
      parent_valid := ?_
      status_known := ?_
      diff_empty := ?_ }
    valid_iff := ?_
    multiset_iff := ?_ }
  · intro node isNotRoot isValid
    refine valid_commit_iff.mpr (.inr ?_)
    rcases valid_commit_iff.mp isValid with rfl | before
    · exact (extended.valid_iff _).mpr (.inr (tree.self_mem_chain _))
    · exact extended.quiet.parent_valid node isNotRoot before
  · intro node
    by_cases eq : node = target
    · exact ⟨.utxoValid, by simp [commitUtxoState, eq], by decide⟩
    · simpa [commitUtxoState, update_of_ne eq] using extended.quiet.status_known node
  · intro node diff stored
    by_cases eq : node = target
    · simp only [commitUtxoState, eq, update_self, Option.some.injEq] at stored
      exact stored.symm
    · simp only [commitUtxoState, update_of_ne eq] at stored
      exact extended.quiet.diff_empty node diff stored
  · intro node
    rw [valid_commit_iff, extended.valid_iff, chain]
    tauto
  · intro node
    by_cases eq : node = target
    · simp [commitUtxoState, eq, new, tree.self_mem_chain]
    · have kept : (next.commitUtxoState target .empty
          multiset).utxoMultisets node = next.utxoMultisets node :=
        update_of_ne eq _ _
      rw [kept, extended.multiset_iff, chain]
      simp only [eq, false_or]

variable {lower upper : Node}

theorem UtxoStores.Quiet.walkUp (quiet : stores.Quiet tree) (lowerValid : stores.Valid lower)
    (mem : lower ∈ tree.chain upper)
    (kept : ∀ node ∈ tree.chain upper, node ≠ upper → stores.Valid node →
      (stores.utxoMultisets node).isSome = true) :
    ∃ next, (windows (tree.path lower upper)).foldlM
          (walkUpStep elementHash (quietDag tree) (fun _ => agreeing)
            virtualUtxo) ⟨lower, .empty, stores⟩ =
        .ok ⟨upper, .empty, next⟩ ∧
      stores.ExtendedTo tree upper next := by
  induction upper, mem using climb with
  | start =>
    rw [path_self]
    exact ⟨stores, rfl, quiet.extendedTo_valid lowerValid⟩
  | upwards upper notRoot ne below ih =>
    have notUpper {node : Node} (onChain : node ∈ tree.chain (tree.parent upper)) :
        node ≠ upper := by
      rintro rfl
      exact not_mem_chain_parent notRoot onChain
    obtain ⟨mid, walked, extended⟩ := ih fun node onChain _ => kept node
        (mem_chain_of_parent notRoot onChain) (notUpper onChain)
    rw [windows_path notRoot ne below, foldlM_append, walked, ok_bind, foldlM_cons]
    by_cases already : stores.Valid upper
    · have valid : mid.Valid upper := (extended.valid_iff upper).mpr (.inl already)
      rw [extended.quiet.walkUpStep_valid valid, ok_bind]
      refine ⟨mid, rfl, ?_⟩
      refine ⟨extended.quiet, fun node => ?_, fun node => ?_⟩
      · rw [extended.valid_iff, tree.chain_of_ne notRoot, mem_cons]
        constructor
        · exact Or.imp_right .inr
        · rintro (before | rfl | onChain)
          · exact .inl before
          · exact .inl already
          · exact .inr onChain
      · rw [extended.multiset_iff, tree.chain_of_ne notRoot, mem_cons]
        constructor
        · exact Or.imp_right fun new => ⟨new.1, .inr new.2⟩
        · rintro (before | ⟨new, rfl | onChain⟩)
          · exact .inl before
          · exact absurd already new
          · exact .inr ⟨new, onChain⟩
    · have new : mid.utxoDiffs upper = none := by
        by_contra stored
        rcases (extended.valid_iff upper).mp (isSome_iff_ne_none.mpr stored) with before | onChain
        · exact already before
        · exact notUpper onChain rfl
      have parentOn := tree.self_mem_chain (tree.parent upper)
      have available : (mid.utxoMultisets (tree.parent upper)).isSome = true := by
        refine (extended.multiset_iff _).mpr ?_
        by_cases before : stores.Valid (tree.parent upper)
        · exact .inl (kept _ (mem_chain_of_parent notRoot parentOn) (notUpper parentOn) before)
        · exact .inr ⟨before, parentOn⟩
      obtain ⟨multiset, stored⟩ := isSome_iff_exists.mp available
      obtain ⟨next, step⟩ := extended.quiet.walkUpStep_new new stored
      rw [step, ok_bind]
      exact ⟨_, rfl, extended.commit notRoot already next⟩

theorem UtxoStores.Quiet.walkUp_missing (quiet : stores.Quiet tree)
    (mem : lower ∈ tree.chain upper) (below : lower ≠ upper)
    (missing : stores.utxoMultisets lower = none)
    (new : ∀ node ∈ tree.chain upper, tree.parent node = lower → stores.utxoDiffs node = none) :
    (windows (tree.path lower upper)).foldlM
        (walkUpStep elementHash (quietDag tree) (fun _ => agreeing)
          virtualUtxo) ⟨lower, .empty, stores⟩ =
      .error (.missingMultiset lower) := by
  induction upper, mem using climb with
  | start => exact absurd rfl below
  | upwards upper ne _ inParent ih =>
    rw [windows_path ne below inParent, foldlM_append]
    by_cases first : lower = tree.parent upper
    · have failed : walkUpStep elementHash (quietDag tree) (fun _ => agreeing) virtualUtxo
          ⟨tree.parent upper, .empty, stores⟩ (tree.parent upper, upper) =
            .error (.missingMultiset (tree.parent upper)) :=
        quiet.walkUpStep_missing (new upper (tree.self_mem_chain upper) first.symm)
          (first ▸ missing)
      rw [first, path_self]
      change (walkUpStep _ _ _ _ _ _ >>= _) = _
      rw [failed]
      rfl
    · rw [ih first fun node onChain => new node (mem_chain_of_parent ne onChain)]
      rfl

variable {source : Node} (quiet : stores.Quiet tree)
include quiet

theorem UtxoStores.Quiet.walkDown (valid : stores.Valid source) (target : Node) :
    ∃ splitPoint, Sophis.walkDown (quietDag tree) stores target .empty
        (tree.chain source) = .ok (splitPoint, .empty) ∧
      splitPoint ∈ tree.chain source ∧ splitPoint ∈ tree.chain target ∧
      ∀ node ∈ tree.chain source, node ∈ tree.chain target → node ∈ tree.chain splitPoint := by
  induction source using tree.ascend with
  | atRoot =>
    have shared := tree.root_mem_chain target
    refine ⟨tree.root, ?_, tree.self_mem_chain _, shared, fun _ mem _ => mem⟩
    rw [tree.chain_root, Sophis.walkDown]
    exact if_pos shared
  | upwards source ne ih =>
    rw [tree.chain_of_ne ne, Sophis.walkDown]
    by_cases shared : source ∈ tree.chain target
    · refine ⟨source, if_pos shared, mem_cons_self, shared, ?_⟩
      intro node mem _
      rwa [tree.chain_of_ne ne]
    · obtain ⟨diff, kept⟩ := isSome_iff_exists.mp valid
      cases quiet.diff_empty source diff kept
      obtain ⟨splitPoint, walked, below, onTarget, highest⟩ :=
        ih (quiet.parent_valid source ne valid)
      have reversed : UtxoDiff.empty.asReversed = .empty := rfl
      refine ⟨splitPoint, ?_, mem_cons_of_mem _ below, onTarget, ?_⟩
      · refine (if_neg shared).trans ?_
        rw [unwrapOr_eq_ok.mpr kept, ok_bind, reversed, accumulateDiff_empty, ok_bind]
        exact walked
      · intro node mem onBoth
        rcases mem_cons.mp mem with rfl | later
        · exact absurd onBoth shared
        · exact highest node later onBoth

theorem UtxoStores.Quiet.relatively_eq (source target : Node) :
    calculateUtxoStateRelatively elementHash (quietDag tree)
        (fun _ => agreeing) virtualUtxo stores .empty source target =
      (Sophis.walkDown (quietDag tree) stores target .empty (tree.chain source) >>= fun split =>
        (windows (tree.path split.1 target)).foldlM
          (walkUpStep elementHash (quietDag tree) (fun _ => agreeing)
            virtualUtxo) ⟨split.1, split.2, stores⟩) := by
  obtain ⟨status, known, qualified⟩ := quiet.status_known target
  rw [calculateUtxoStateRelatively, unwrapOr_eq_ok.mpr known, ok_bind, if_neg qualified]
  rfl

theorem UtxoStores.Quiet.relatively (elementHash : List UInt8 → Hash) (virtualUtxo : UtxoSet)
    (valid : stores.Valid source)
    (kept : ∀ node ∈ tree.chain target, node ≠ target →
      stores.Valid node → (stores.utxoMultisets node).isSome = true) :
    ∃ next, calculateUtxoStateRelatively elementHash (quietDag tree)
          (fun _ => agreeing) virtualUtxo stores .empty source target =
        .ok ⟨target, .empty, next⟩ ∧
      stores.ExtendedTo tree target next := by
  obtain ⟨splitPoint, down, below, shared, -⟩ := quiet.walkDown valid target
  rw [quiet.relatively_eq, down, ok_bind]
  exact quiet.walkUp (quiet.toChainClosed.chain_valid valid below) shared kept

end

variable {Node : Type} [DecidableEq Node] (tree : QuietTree Node)

def quietResolution (tips : List Node) (finalityPoint : Node) : Resolution (quietDag tree) where
  tips
  finalityPoint
  judging _ := agreeing
  pickVirtualParents sink _ := {
    selectedParent := sink
    mergeset := []
    root_not_merged := not_mem_nil
    daaScore := some (tree.blueScore sink + 1)
    environment := agreeing.environment
    cuts := agreeing.cuts }

variable {tree}

/-- A processor whose stores are quiet. -/
structure ProcessorState.Quiet (tree : QuietTree Node) (state : ProcessorState Node) : Prop where
  stores : state.stores.Quiet tree
  diff_empty : state.virtualState.utxoDiff = .empty
  sink_valid : state.stores.Valid state.virtualState.sink

theorem UtxoStores.Quiet.pruneFinalizedMultiset {stores : UtxoStores Node}
    (quiet : stores.Quiet tree) (finalityPoint : Node) :
    (pruneFinalizedMultiset (quietDag tree) finalityPoint stores).Quiet tree where
  root_valid := quiet.root_valid
  parent_valid := quiet.parent_valid
  status_known := quiet.status_known
  diff_empty := quiet.diff_empty

theorem quietDag_genesisState (tree : QuietTree Node) :
    (quietDag tree).genesisState.Quiet tree := by
  have rootOnly {node : Node} (valid : (quietDag tree).genesisState.stores.Valid node) :
      node = tree.root :=
    BlockDag.genesisState_valid_iff.mp valid
  have rootValid : (quietDag tree).genesisState.stores.Valid tree.root :=
    BlockDag.genesisState_valid_iff.mpr rfl
  refine ⟨⟨⟨rootValid, ?_⟩, ?_, ?_⟩, rfl, rootValid⟩
  · intro node ne valid
    exact absurd (rootOnly valid) ne
  · intro node
    refine ⟨_, rfl, ?_⟩
    split <;> decide
  · intro node diff kept
    cases rootOnly (isSome_of_eq_some kept)
    have isRoot : (quietDag tree).genesisState.stores.utxoDiffs tree.root =
        some .empty := if_pos rfl
    cases isRoot.symm.trans kept
    rfl

variable {state : ProcessorState Node} {relations : DagRelations Node} {tips rest : List Node}
  {finalityPoint candidate : Node} (quiet : state.Quiet tree) (elementHash : List UInt8 → Hash)
  (popped : popMax ((quietDag tree).sortable relations)
    (tips.filter (relations.isDagAncestorOf finalityPoint)) = some (candidate, rest))
  (final : finalityPoint ∈ tree.chain candidate)
include quiet elementHash popped final

/-- The search stops at the heaviest tip if the walk to it does. -/
theorem ProcessorState.Quiet.searched : ∃ next,
    sinkSearchAlgorithm elementHash (quietDag tree) relations (fun _ => agreeing) state.utxoSet
        finalityPoint
        (relations.searchBound (tips.filter (relations.isDagAncestorOf finalityPoint)) + 1)
        ⟨state.virtualState.sink, state.virtualState.utxoDiff.asReversed, state.stores⟩
        (tips.filter (relations.isDagAncestorOf finalityPoint)) =
      ((calculateUtxoStateRelatively elementHash (quietDag tree) (fun _ => agreeing) state.utxoSet
        state.stores .empty state.virtualState.sink candidate).mapError .relative >>= next) ∧
    ∀ extended, next ⟨candidate, .empty, extended⟩ = .ok (⟨candidate, .empty, extended⟩,
      virtualParentCandidates (quietDag tree) relations candidate rest) := by
  rw [sinkSearchAlgorithm, popped, quiet.diff_empty]
  exact ⟨_, if_pos final, fun _ => if_pos rfl⟩

theorem ProcessorState.Quiet.resolveVirtual
    (kept : ∀ node ∈ tree.chain candidate, state.stores.Valid node →
      (state.stores.utxoMultisets node).isSome = true) :
    ∃ next extended, Sophis.resolveVirtual elementHash (quietDag tree) relations state
        (quietResolution tree tips finalityPoint) = .ok next ∧
      next.Quiet tree ∧
      next.virtualState.sink = candidate ∧
      state.stores.ExtendedTo tree candidate extended ∧
      next.stores = Sophis.pruneFinalizedMultiset (quietDag tree) finalityPoint extended := by
  obtain ⟨extended, moved, grown⟩ := quiet.stores.relatively elementHash
    state.utxoSet quiet.sink_valid fun node mem _ => kept node mem
  have valid : extended.Valid candidate :=
    (grown.valid_iff candidate).mpr (.inr (tree.self_mem_chain candidate))
  have available : (extended.utxoMultisets candidate).isSome = true := by
    refine (grown.multiset_iff candidate).mpr ?_
    have onChain := tree.self_mem_chain candidate
    by_cases before : state.stores.Valid candidate
    · exact .inl (kept candidate onChain before)
    · exact .inr ⟨before, onChain⟩
  obtain ⟨multiset, stored⟩ := isSome_iff_exists.mp available
  obtain ⟨_, searched, got⟩ := quiet.searched elementHash popped final
  rw [moved] at searched
  replace searched := searched.trans (got extended)
  have ran := quietDag_calculated tree elementHash
    (UtxoDiff.empty.compose state.utxoSet.lookup) (tree.blueScore candidate + 1) candidate multiset
  generalize (multiset.addTransaction elementHash quietExternal.toHashers
    ⟨quietCoinbase (tree.blueScore candidate), [], rfl⟩
    (tree.blueScore candidate + 1)).combine .new = nextMultiset at ran
  refine ⟨⟨Sophis.pruneFinalizedMultiset (quietDag tree) finalityPoint extended,
    state.utxoSet.withDiff .empty, ⟨candidate, .empty, nextMultiset⟩⟩, extended, ?_,
    ⟨grown.quiet.pruneFinalizedMultiset finalityPoint, rfl, valid⟩, rfl, grown, rfl⟩
  simp only [Sophis.resolveVirtual, quietResolution, searched,
    ok_bind, reject, ne_eq, not_true_eq_false, if_false, stored, unwrapOr,
    calculateVirtualState, BlockDag.blocks, map_nil, ran]
  rfl

/-- Resolving aborts when the heaviest tip leaves the chain of the sink at a
block whose multiset is missing. -/
theorem ProcessorState.Quiet.resolveVirtual_missing {lower : Node}
    (onSink : lower ∈ tree.chain state.virtualState.sink)
    (onCandidate : lower ∈ tree.chain candidate)
    (highest : ∀ node ∈ tree.chain state.virtualState.sink,
      node ∈ tree.chain candidate → tree.height node ≤ tree.height lower)
    (below : lower ≠ candidate) (missing : state.stores.utxoMultisets lower = none)
    (new : ∀ node ∈ tree.chain candidate, tree.parent node = lower →
      state.stores.utxoDiffs node = none) :
    Sophis.resolveVirtual elementHash (quietDag tree) relations state
        (quietResolution tree tips finalityPoint) =
      .error (.relative (.missingMultiset lower)) := by
  obtain ⟨splitPoint, down, splitOn, shared, top⟩ :=
    quiet.stores.walkDown quiet.sink_valid candidate
  have eq : splitPoint = lower := (eq_of_mem_chain_of_height_le (top lower onSink onCandidate)
      (highest splitPoint splitOn shared)).symm
  have moved : calculateUtxoStateRelatively elementHash (quietDag tree)
      (fun _ => agreeing) state.utxoSet state.stores .empty
      state.virtualState.sink candidate = .error (.missingMultiset lower) := by
    rw [quiet.stores.relatively_eq, down, ok_bind, eq]
    exact quiet.stores.walkUp_missing onCandidate below missing new
  obtain ⟨_, searched, -⟩ := quiet.searched elementHash popped final
  rw [moved] at searched
  simp only [Sophis.resolveVirtual, quietResolution, searched]
  rfl

end Sophis
