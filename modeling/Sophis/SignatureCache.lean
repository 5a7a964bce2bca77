import Mathlib.Data.List.AList
import Sophis.ScriptEngine

namespace Sophis

open ByteCodec ExceptLoop List OracleProgram RuntimeSigOpCounter

/-!
# The signature cache

`crypto/txscript/src/caches.rs` and its use by `check_dilithium_signature`.
Verdicts are shared between all threads of a node under a key that keeps only
the first 32 bytes of the verification key and of the signature.
-/

/-- A map of bounded size that forgets an arbitrary entry when it is full. -/
structure Cache (Key Data : Type) where
  map : AList fun _ : Key => Data
  size : Nat
  bounded : map.entries.length ≤ size

namespace Cache

variable {Key Data : Type}

def empty (size : Nat) : Cache Key Data where
  map := ∅
  size
  bounded := Nat.zero_le size

variable [DecidableEq Key]

def get (cache : Cache Key Data) (key : Key) : Option Data :=
  cache.map.lookup key

/-- Forgets the entry at a position, counted from the most recent one. -/
def swapRemoveIndex (cache : Cache Key Data) (position : Nat) : AList fun _ : Key => Data :=
  match cache.map.keys[position]? with
  | some victim => cache.map.erase victim
  | none => cache.map

/-- The entries an insertion starts from. -/
def makeRoom (cache : Cache Key Data) (position : Nat) : AList fun _ : Key => Data :=
  if cache.map.entries.length = cache.size then
    cache.swapRemoveIndex (position % cache.size)
  else
    cache.map

variable {key : Key}

private theorem length_erase_of_mem (map : AList fun _ : Key => Data) (mem : key ∈ map.keys) :
    (map.erase key).entries.length + 1 = map.entries.length := by
  have keysLength : ∀ other : AList fun _ : Key => Data, other.keys.length = other.entries.length :=
    fun other => length_map _
  rw [← keysLength, ← keysLength, AList.keys_erase, List.length_erase_of_mem mem]
  exact Nat.sub_add_cancel (length_pos_of_mem mem)

private theorem length_makeRoom_lt (cache : Cache Key Data) (position : Nat)
    (pos : cache.size ≠ 0) : (cache.makeRoom position).entries.length < cache.size := by
  unfold makeRoom
  split
  case isTrue full =>
    have keysLength : cache.map.keys.length = cache.size := (length_map _).trans full
    have inRange : position % cache.size < cache.map.keys.length := by
      rw [keysLength]
      exact Nat.mod_lt _ (Nat.pos_of_ne_zero pos)
    rw [swapRemoveIndex, getElem?_eq_getElem inRange]
    dsimp only
    have shorter := length_erase_of_mem cache.map (getElem_mem inRange)
    omega
  case isFalse notFull => exact Nat.lt_of_le_of_ne cache.bounded notFull

/-- Stores an entry. A full cache first forgets the entry at a random
position, even when the key is already stored. -/
def insert (cache : Cache Key Data) (position : Nat) (key : Key) (data : Data) : Cache Key Data :=
  if disabled : cache.size = 0 then
    cache
  else
    { map := (cache.makeRoom position).insert key data
      size := cache.size
      bounded := by
        have room := length_makeRoom_lt cache position disabled
        rw [AList.entries_insert, length_cons]
        exact Nat.lt_of_le_of_lt (kerase_sublist _ _).length_le room }

variable {cache : Cache Key Data} {position : Nat} {data : Data}

private theorem lookup_of_lookup_makeRoom (got : (cache.makeRoom position).lookup key = some data) :
    cache.get key = some data := by
  unfold makeRoom swapRemoveIndex at got
  split at got
  · split at got
    case h_1 victim _ =>
      by_cases eq : key = victim
      · subst eq
        simp at got
      · rwa [AList.lookup_erase_ne eq] at got
    case h_2 => exact got
  · exact got

theorem get_insert_self (enabled : cache.size ≠ 0) (position : Nat) (key : Key) (data : Data) :
    (cache.insert position key data).get key = some data := by
  rw [insert, dif_neg enabled]
  exact AList.lookup_insert _

theorem get_of_get_insert {other : Key} {got : Data}
    (kept : (cache.insert position key data).get other = some got) :
    cache.get other = some got ∨ other = key ∧ got = data := by
  unfold insert at kept
  split at kept
  · exact .inl kept
  · by_cases eq : other = key
    · subst eq
      simp only [get, AList.lookup_insert, Option.some.injEq] at kept
      exact .inr ⟨rfl, kept.symm⟩
    · simp only [get, AList.lookup_insert_ne eq] at kept
      exact .inl (lookup_of_lookup_makeRoom kept)

end Cache

/-- The key of a verdict: prefixes of the verification key and the signature,
and the whole message. -/
structure SigCacheKey where
  signature : FixedBytes 32
  pubKey : FixedBytes 32
  message : Hash
  deriving Repr, DecidableEq

def SigCheck.cacheKey (check : SigCheck) : SigCacheKey where
  signature := .ofPrefix 32 check.signature
  pubKey := .ofPrefix 32 check.key
  message := check.message

/-- Answers of the verifier by question. -/
abbrev SigCache := Cache SigCacheKey Bool

/-- A verdict that some thread stores, with the position that is forgotten if
the cache is full. -/
structure Insertion where
  check : SigCheck
  position : Nat
  deriving Repr, DecidableEq

/-- Everything around one execution: the verdicts stored before it, those
other threads store before each of its cache accesses, and the random
positions its own insertions draw. -/
structure CacheEnvironment where
  before : List Insertion
  meanwhile : Nat → List Insertion
  drawn : Nat → Nat

namespace CacheEnvironment

/-- Nothing else uses the cache. -/
def alone : CacheEnvironment where
  before := []
  meanwhile _ := []
  drawn _ := 0

/-- All verdicts stored by others come from the given checks. -/
structure Within (history : List SigCheck) (env : CacheEnvironment) :
    Prop where
  before : ∀ insertion ∈ env.before, insertion.check ∈ history
  meanwhile : ∀ access, ∀ insertion ∈ env.meanwhile access, insertion.check ∈ history

end CacheEnvironment

/-- The cache as one execution sees it, with the number of checks it has
made. -/
structure SharedCache where
  cache : SigCache
  checks : Nat

variable (verify : SigCheck → Bool)

/-- A thread stores a verdict only after verifying. -/
def insertAll (cache : SigCache) (insertions : List Insertion) : SigCache :=
  insertions.foldl
    (fun cache insertion =>
      cache.insert insertion.position insertion.check.cacheKey (verify insertion.check))
    cache

/-- Answers a check from the cache, or verifies and stores the verdict. Other
threads may use the cache before the lookup and again before the insertion. -/
def answerThroughCache (env : CacheEnvironment) (shared : SharedCache)
    (check : SigCheck) : Bool × SharedCache :=
  let seen := insertAll verify shared.cache (env.meanwhile (2 * shared.checks))
  match seen.get check.cacheKey with
  | some cached => (cached, ⟨seen, shared.checks + 1⟩)
  | none =>
    let valid := verify check
    let later := insertAll verify seen (env.meanwhile (2 * shared.checks + 1))
    (valid, ⟨later.insert (env.drawn shared.checks) check.cacheKey valid, shared.checks + 1⟩)

/-- Runs a program against the cache that the history left. -/
def runThroughCache {ε α : Type} (size : Nat) (env : CacheEnvironment)
    (program : SigProgram ε α) : Except ε α :=
  (program.run.run (answerThroughCache verify env) ⟨insertAll verify (.empty size) env.before, 0⟩).1

/-- No history made of the given checks can be told from an empty cache. -/
def CacheTransparent {ε α : Type} (history : List SigCheck) (program : SigProgram ε α) : Prop :=
  ∀ size env, CacheEnvironment.Within history env → runThroughCache verify size env program =
    runThroughCache verify size .alone program

/-- No two checks share a cache key and differ in their verdict. -/
def Unambiguous (asked known : List SigCheck) : Prop :=
  ∀ check ∈ asked, ∀ other ∈ known, other.cacheKey = check.cacheKey → verify other = verify check

/-- Every stored verdict is that of a known check. -/
private def ExplainedCache (known : List SigCheck) (cache : SigCache) : Prop :=
  ∀ key verdict, cache.get key = some verdict →
    ∃ check ∈ known, check.cacheKey = key ∧ verify check = verdict

variable {verify}

private theorem ExplainedCache.insert {known : List SigCheck} {cache : SigCache}
    (explained : ExplainedCache verify known cache) {check : SigCheck} (mem : check ∈ known)
    (position : Nat) :
    ExplainedCache verify known (cache.insert position check.cacheKey (verify check)) := by
  intro key verdict kept
  rcases Cache.get_of_get_insert kept with old | ⟨rfl, rfl⟩
  · exact explained key verdict old
  · exact ⟨check, mem, rfl, rfl⟩

variable {known : List SigCheck}

private theorem ExplainedCache.insertAll {cache : SigCache}
    (explained : ExplainedCache verify known cache) {insertions : List Insertion}
    (members : ∀ insertion ∈ insertions, insertion.check ∈ known) :
    ExplainedCache verify known (insertAll verify cache insertions) := by
  induction insertions generalizing cache with
  | nil => exact explained
  | cons insertion rest ih =>
    exact ih (explained.insert (members insertion mem_cons_self) _) (forall_mem_cons.mp members).2

variable {env : CacheEnvironment}

private theorem answerThroughCache_spec (within : CacheEnvironment.Within known env)
    {check : SigCheck} (mem : check ∈ known) (unambiguous : Unambiguous verify [check] known)
    {shared : SharedCache} (explained : ExplainedCache verify known shared.cache) :
    (answerThroughCache verify env shared check).1 = verify check ∧ ExplainedCache verify known
      (answerThroughCache verify env shared check).2.cache := by
  have seen := explained.insertAll (within.meanwhile (2 * shared.checks))
  unfold answerThroughCache
  dsimp only
  split
  case h_1 cached hit =>
    obtain ⟨other, otherKnown, sameKey, verdict⟩ := seen _ _ hit
    have eq := unambiguous check mem_cons_self other otherKnown sameKey
    exact ⟨verdict ▸ eq, seen⟩
  case h_2 miss =>
    exact ⟨rfl, (seen.insertAll (within.meanwhile (2 * shared.checks + 1))).insert mem _⟩

theorem runThroughCache_eq_evaluate {ε α : Type} {program : SigProgram ε α}
    {history : List SigCheck}
    (unambiguous : Unambiguous verify (program.run.queries verify)
      (history ++ program.run.queries verify)) (size : Nat) (within : env.Within history) :
    runThroughCache verify size env program = program.run.evaluate verify := by
  have withinKnown : env.Within (history ++ program.run.queries verify) :=
    { before := fun insertion mem => mem_append_left _ (within.before insertion mem)
      meanwhile := fun access insertion mem =>
        mem_append_left _ (within.meanwhile access insertion mem) }
  have start : ExplainedCache verify (history ++ program.run.queries verify)
      (insertAll verify (.empty size) env.before) := by
    refine ExplainedCache.insertAll ?_ withinKnown.before
    intro key verdict kept
    simp [Cache.get, Cache.empty] at kept
  exact (run_eq_evaluate (answerThroughCache verify env)
    (fun shared => ExplainedCache verify _ shared.cache) verify
    (fun shared explained check asked =>
      answerThroughCache_spec withinKnown (mem_append_right _ asked) (fun other mem => by
          rw [mem_singleton.mp mem]
          exact unambiguous check asked)
        explained)
    start).1

section

variable {verify : SigCheck → Bool} {history : List SigCheck}

private theorem alone_within : CacheEnvironment.alone.Within history where
  before _ mem := absurd mem not_mem_nil
  meanwhile _ _ mem := absurd mem not_mem_nil

variable {ε α : Type} {program : SigProgram ε α}

theorem cacheTransparent_of_unambiguous (unambiguous :
    Unambiguous verify (program.run.queries verify)
      (history ++ program.run.queries verify)) : CacheTransparent verify history program := by
  intro size env within
  rw [runThroughCache_eq_evaluate unambiguous size within,
    runThroughCache_eq_evaluate unambiguous size alone_within]

/-- The check that one signature of an input stands for. -/
def SigCheck.ofInput (hashers : Hashers) (populated : PopulatedTransaction)
    (index : Fin populated.tx.inputs.length) (hashType : SigHashType)
    (key sig : List UInt8) : SigCheck where
  key
  message := calcSignatureHash hashers populated index hashType
  signature := sig

/-- The inputs on which a signature is really checked. -/
structure SignatureChecked (counter : RuntimeSigOpCounter)
    (key sig : List UInt8) : Prop where
  remaining : counter.remaining ≠ 0
  sigSize : sig.length = dilithium2SigSize
  keySize : key.length = dilithium2VkSize

variable (hashers : Hashers) (populated : PopulatedTransaction)
  (index : Fin populated.tx.inputs.length) (entry : UtxoEntry)
  {counter : RuntimeSigOpCounter} (hashType : SigHashType)
  {key sig : List UInt8}

theorem checkDilithiumSignature_of_checked (checked : SignatureChecked counter key sig) :
    (checkDilithiumSignature hashers (.txInput populated index entry)
        counter hashType key sig).run =
      .ask (.ofInput hashers populated index hashType key sig) fun valid => .done (.ok
        (valid, { counter with remaining := counter.remaining - 1 })) := by
  simp only [checkDilithiumSignature, consumeSigOp,
    if_neg checked.remaining, checked.sigSize, checked.keySize]
  rfl

theorem checkDilithiumSignature_of_not_checked (unchecked : ¬ SignatureChecked counter key sig) :
    ∃ error, (checkDilithiumSignature hashers (.txInput populated index entry)
        counter hashType key sig).run =
      .done (.error error) := by
  by_cases remaining : counter.remaining = 0
  · refine ⟨.exceededSigOpLimit counter.limit, ?_⟩
    simp only [checkDilithiumSignature, consumeSigOp, if_pos remaining]
    rfl
  · by_cases sigSize : sig.length = dilithium2SigSize
    · have keySize : key.length ≠ dilithium2VkSize :=
        fun keySize => unchecked ⟨remaining, sigSize, keySize⟩
      refine ⟨.pubKeyFormat, ?_⟩
      simp only [checkDilithiumSignature, consumeSigOp,
        if_neg remaining, sigSize, reject, if_pos keySize]
      rfl
    · refine ⟨.sigLength sig.length, ?_⟩
      simp only [checkDilithiumSignature, consumeSigOp, if_neg remaining,
        reject, ne_eq, sigSize, not_false_eq_true, if_true]
      rfl

variable {check : SigCheck} {result : Bool → α}

private theorem runThroughCache_of_ask
    (asks : program.run = .ask check fun valid => .done (.ok (result valid))) (size : Nat)
    (env : CacheEnvironment) :
    runThroughCache verify size env program = .ok (result
      (((insertAll verify (insertAll verify (.empty size) env.before)
        (env.meanwhile 0)).get check.cacheKey).getD (verify check))) := by
  simp only [runThroughCache, asks, OracleProgram.run, answerThroughCache, Nat.mul_zero]
  split
  case h_1 cached hit => rw [hit, Option.getD_some]
  case h_2 miss => rw [miss, Option.getD_none]

private theorem cacheTransparent_ask_iff (injective : Function.Injective result)
    (asks : program.run = .ask check fun valid => .done (.ok (result valid))) :
    CacheTransparent verify history program ↔
      ∀ prior ∈ history, prior.cacheKey = check.cacheKey → verify prior = verify check := by
  constructor
  · intro transparent prior mem sameKey
    -- A cache with room for one verdict, filled by the earlier check.
    let filled : CacheEnvironment := { CacheEnvironment.alone with before := [⟨prior, 0⟩] }
    have eq := transparent 1 filled
      { before := fun insertion only => by
          rwa [mem_singleton.mp only]
        meanwhile := alone_within.meanwhile }
    have kept : (insertAll verify (.empty 1) [⟨prior, 0⟩]).get check.cacheKey =
        some (verify prior) := by
      rw [← sameKey]
      have enabled : (Cache.empty 1 : SigCache).size ≠ 0 := Nat.one_ne_zero
      exact Cache.get_insert_self enabled _ _ _
    rw [runThroughCache_of_ask asks, runThroughCache_of_ask asks] at eq
    have agreed := injective (Except.ok.inj eq)
    change ((insertAll verify (.empty 1) [⟨prior, 0⟩]).get _).getD _ = verify check at agreed
    rwa [kept] at agreed
  · intro agree
    refine cacheTransparent_of_unambiguous ?_
    intro other asked known mem sameKey
    have isCheck : other = check := by simpa [asks, queries] using asked
    subst isCheck
    rcases mem_append.mp mem with prior | own
    · exact agree known prior sameKey
    · have eq : known = other := by simpa [asks, queries] using own
      rw [eq]

/-- What the shared cache can change. One signature check gives the verdict of
an empty cache, whatever the history did, exactly when no check of the history
agrees with it on the 32-byte prefixes and the message but not on the verdict;
and an execution all of whose checks are free of such conflicts, with the
history and among themselves, returns what it returns from an empty cache. -/
theorem signatureCache_transparent_iff (hashers : Hashers) (verify : SigCheck → Bool)
    (history : List SigCheck) :
    (∀ (populated : PopulatedTransaction)
        (index : Fin populated.tx.inputs.length) (entry : UtxoEntry)
        (counter : RuntimeSigOpCounter) (hashType : SigHashType)
        (key sig : List UInt8),
      CacheTransparent verify history
          (checkDilithiumSignature hashers (.txInput populated index entry)
            counter hashType key sig) ↔
        (SignatureChecked counter key sig → ∀ earlier ∈ history, earlier.cacheKey =
            (SigCheck.ofInput hashers populated index hashType key sig).cacheKey →
          verify earlier = verify (.ofInput hashers populated index hashType key sig))) ∧
      ∀ source : ScriptSource, Unambiguous verify ((execute hashers source).run.queries verify)
          (history ++ (execute hashers source).run.queries verify) →
        CacheTransparent verify history (execute hashers source) := by
  constructor
  · intro populated index entry counter hashType key sig
    by_cases ok : SignatureChecked counter key sig
    · have asks := checkDilithiumSignature_of_checked hashers populated index entry hashType ok
      have injective : Function.Injective fun valid : Bool =>
          (valid, { counter with remaining := counter.remaining - 1 }) :=
        fun _ _ eq => congrArg Prod.fst eq
      rw [cacheTransparent_ask_iff injective asks]
      exact ⟨fun agree _ => agree, fun agree => agree ok⟩
    · obtain ⟨error, fails⟩ := checkDilithiumSignature_of_not_checked hashers populated index entry
        hashType ok
      refine ⟨fun _ isChecked => absurd isChecked ok, fun _ => ?_⟩
      intro size env _
      simp only [runThroughCache, fails, OracleProgram.run]
  · intro source unambiguous
    exact cacheTransparent_of_unambiguous unambiguous

end

/-! Two signatures that agree on their first 32 bytes, of which one verifies.
Once the good one has been checked, the engine accepts the other. -/

def spentKey : List UInt8 := List.replicate 1312 3

def goodSignature : List UInt8 := List.replicate 2420 7

def forgedSignature : List UInt8 :=
  List.replicate 32 7 ++ List.replicate 2388 8

/-- A verifier that accepts only the good signature. -/
def acceptsGood (check : SigCheck) : Bool :=
  check.signature == goodSignature

/-- The hash functions; the signing hash has the values it takes on the parts
of the transaction below, which are told apart by their length. -/
def forgeryHashers : Hashers where
  sha3 _ := FixedBytes.replicate 48 0
  wasmHash _ := zeroHash
  mintPolicyHash _ := zeroHash
  transactionIdHash _ := zeroHash
  transactionHash _ := zeroHash
  transactionSigningHash bytes :=
    if bytes.length = 36 then
      ⟨[94, 176, 48, 243, 24, 195, 189, 11, 223, 190, 135, 14, 147, 116, 169, 49, 89, 219, 196, 178,
        97, 162, 209, 26, 37, 36, 254, 222, 88, 7, 159, 10], rfl⟩
    else if bytes.length = 8 then
      ⟨[15, 153, 19, 86, 20, 99, 62, 80, 121, 105, 209, 37, 34, 200, 15, 150, 124, 255, 110, 188, 4,
        54, 134, 62, 2, 238, 66, 178, 182, 101, 86, 252], rfl⟩
    else if bytes.length = 1 then
      ⟨[133, 35, 176, 71, 27, 203, 234, 4, 87, 92, 202, 166, 53, 238, 249, 249, 17, 79, 40, 144,
        189, 165, 67, 103, 229, 255, 140, 170, 56, 120, 191, 130], rfl⟩
    else if bytes.length = 18 then
      ⟨[190, 201, 124, 12, 212, 134, 95, 5, 105, 114, 244, 75, 13, 92, 79, 188, 242, 193, 167, 242,
        30, 197, 185, 128, 250, 127, 192, 237, 200, 8, 32, 243], rfl⟩
    else
      ⟨[88, 249, 109, 47, 30, 10, 169, 79, 148, 204, 8, 234, 251, 187, 200, 196, 44, 199, 68, 223,
        193, 245, 43, 147, 25, 165, 254, 25, 83, 48, 69, 142], rfl⟩
  merkleBranchHash _ := zeroMerkleHash
  sha256 _ := zeroHash
  blake2b _ := zeroHash

/-- A payment of one output that is locked by the key alone, signed with the
forged signature. -/
def forgedSpend : PopulatedTransaction where
  tx := {
    version := 0
    inputs := [{
      previousOutpoint := {
        transactionId := FixedBytes.replicate 32 17
        index := 0
      }
      signatureScript := [0x4d, 0x75, 0x09] ++ forgedSignature ++ [1]
      sequence := 0
      sigOpCount := 1
    }]
    outputs := [{
      value := 900
      scriptPublicKey := { version := 0, script := [] }
    }]
    lockTime := 0
    subnetworkId := subnetworkIdNative
    gas := 0
    payload := []
    mass := 0
  }
  entries := [{
    amount := 1000
    scriptPublicKey := {
      version := 0
      script := [0x4d, 0x20, 0x05] ++ spentKey ++ [0xc4]
    }
    blockDaaScore := 0
    isCoinbase := false
  }]
  length_entries := rfl

def forgedSource : ScriptSource :=
  .txInput forgedSpend ⟨0, Nat.zero_lt_one⟩ (forgedSpend.populatedInput ⟨0, Nat.zero_lt_one⟩).2

/-- The check of the good signature, made when the same payment was seen with
it. -/
def goodCheck : SigCheck :=
  .ofInput forgeryHashers forgedSpend ⟨0, Nat.zero_lt_one⟩ .all spentKey goodSignature

/-- With the good check in its history the engine accepts the forged
signature, which it rejects from an empty cache. -/
theorem forgedSpend_accepted_after_goodCheck : runThroughCache acceptsGood 100
        { CacheEnvironment.alone with before := [⟨goodCheck, 0⟩] }
        (execute forgeryHashers forgedSource) =
      .ok () ∧
    runThroughCache acceptsGood 100 .alone (execute forgeryHashers forgedSource) =
      .error .evalFalse := by
  constructor
  · decide +kernel
  · decide +kernel

end Sophis
