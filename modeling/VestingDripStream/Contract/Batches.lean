import VestingDripStream.Contract.VariableRate
import VestingDripStream.Lib.LastWrites

/-! # Batches with a recipient twice

The validation loop of `create_batch_streams` compares every entry with the storage as it was before
the batch, and the entries are stored one after the other under their recipients. So a batch may
name a recipient twice: the later schedule replaces the earlier one, while the deposit was taken for
both. `batchProtected_iff` says that this is the only way in which a validated batch goes wrong, and
how much is lost. -/

namespace VestingDripStream.Contract.Batches

open VestingDripStream.Lib.Checked VestingDripStream.Lib.Transaction
open VestingDripStream.Lib.LastWrites
open VestingDripStream.Contract.Types VestingDripStream.Contract.Storage
open VestingDripStream.Contract.Schedule VestingDripStream.Contract.EntryPoints
open VestingDripStream.Contract.Effects VestingDripStream.Contract.VariableRate

/-- The deposit that the validation counts for an entry. -/
def deposit (e : BatchEntry) : ℤ := (e.rate * e.totalDuration.toNat).tdiv rateDecimals

/-- The schedule that is stored for an entry. -/
def entrySchedule (host : Host) (sponsor token : Address) (e : BatchEntry) : VestingSchedule :=
  newSchedule (e.args sponsor token) none host.sequence (host.sequence + e.cliffDuration)
    (host.sequence + e.totalDuration)

/-- The deposit behind a schedule. -/
def depositOf (s : VestingSchedule) : ℤ := s.total.tdiv rateDecimals

/-- The deposits behind the schedules that are stored for `rs`. -/
def storedDeposits (st : Storage) (rs : List Address) : ℤ :=
  (rs.dedup.map fun r => ((byId st r 0).map depositOf).getD 0).sum

/-- A validated batch with deposit `total` is safe to store: its recipients are distinct and have no
schedule, and whenever the entries are stored, each has its schedule and `total` is behind them. -/
structure BatchProtected (host : Host) (sponsor token : Address) (env : Env)
    (streams : List BatchEntry) (total : ℤ) : Prop where
  distinct : (streams.map (·.recipient)).Nodup
  free : ∀ e ∈ streams, hasSchedule env.persistent e.recipient = false
  kept : ∀ env1 env2, env1.persistent = env.persistent →
    storeBatch host sponsor token streams env1 = .ok ((), env2) →
      ∀ e ∈ streams, byId env2.persistent e.recipient 0 = some (entrySchedule host sponsor token e)
  backed : ∀ env1 env2, env1.persistent = env.persistent →
    storeBatch host sponsor token streams env1 = .ok ((), env2) →
      total = storedDeposits env2.persistent (streams.map (·.recipient))

section Batches

variable {D : Deployment} {host : Host} {sponsor token : Address} {env env' : Env}
  {streams : List BatchEntry}

/-- The validation adds up the deposits of all entries. -/
theorem validateBatch_total : ∀ {streams : List BatchEntry} {acc total : ℤ},
    validateBatch sponsor streams acc env = .ok (total, env') →
      total = acc + (streams.map deposit).sum
  | [], acc, total, h => by
    unfold validateBatch at h
    rw [← (pure_ok.mp h).1]
    simp
  | e :: rest, acc, total, h => by
    simp only [validateBatch, require_bind_ok, asks_bind_ok, compute_bind_ok, orOverflow_ok,
      checked_eq_some] at h
    obtain ⟨-, -, -, -, d, hd, sum, ⟨-, rfl⟩, h⟩ := h
    have hdeposit : d = deposit e := (calculateTotalDeposit_ok hd).2
    rw [validateBatch_total h, List.map_cons, List.sum_cons, hdeposit, add_assoc]

/-- The write of one entry. -/
def writeEntry (host : Host) (sponsor token : Address) (st : Storage) (e : BatchEntry) : Storage :=
  addSponsorStream (setSchedule st e.recipient (entrySchedule host sponsor token e)) sponsor
    e.recipient

theorem byId_writeEntry (st : Storage) (e : BatchEntry) (r : Address) :
    byId (writeEntry host sponsor token st e) r 0 =
      if r = e.recipient then some (entrySchedule host sponsor token e) else byId st r 0 := by
  have hindex : byId (writeEntry host sponsor token st e) r 0 =
      byId (setSchedule st e.recipient (entrySchedule host sponsor token e)) r 0 :=
    lookup_addSponsorStream _ _ _ (by simp)
  rw [hindex, setSchedule, byId_setScheduleById]
  simp

/-- A batch is stored by one write after the other, and each of its ledgers fits. -/
theorem batchStored_eq {st st' : Storage} (h : BatchStored host sponsor token streams st st') :
    st' = streams.foldl (writeEntry host sponsor token) st ∧
      ∀ e ∈ streams, host.sequence.toNat + e.totalDuration.toNat < UInt32.size := by
  induction h with
  | nil st => exact ⟨rfl, nofun⟩
  | @cons e rest st st' cliff fin hcliff hfin _ ih =>
    have hcliff' : cliff = host.sequence + e.cliffDuration := by
      rw [← UInt32.toNat_inj, hcliff, toNat_add_of_lt (hcliff ▸ cliff.toNat_lt)]
    have hfin' : fin = host.sequence + e.totalDuration := by
      rw [← UInt32.toNat_inj, hfin, toNat_add_of_lt (hfin ▸ fin.toNat_lt)]
    subst hcliff' hfin'
    refine ⟨ih.1, fun e' he' => ?_⟩
    rcases List.mem_cons.mp he' with rfl | he'
    · exact hfin ▸ UInt32.toNat_lt _
    · exact ih.2 e' he'

theorem depositOf_entrySchedule {e : BatchEntry}
    (h : host.sequence.toNat + e.totalDuration.toNat < UInt32.size) :
    depositOf (entrySchedule host sponsor token e) = deposit e := by
  have hduration : ((host.sequence + e.totalDuration).toNat : ℤ) - host.sequence.toNat =
      e.totalDuration.toNat := by
    rw [toNat_add_of_lt h]
    omega
  unfold depositOf deposit VestingSchedule.total entrySchedule
  show (e.rate * (((host.sequence + e.totalDuration).toNat : ℤ) - host.sequence.toNat)).tdiv _ = _
  rw [hduration]

/-- **What a stored batch leaves**: the schedule of every entry that no later one overwrites. -/
theorem byId_of_storeBatch {u : Unit} (h : storeBatch host sponsor token streams env = .ok (u, env'))
    {e : BatchEntry} (he : e ∈ lastWrites (·.recipient) streams) :
    byId env'.persistent e.recipient 0 = some (entrySchedule host sponsor token e) := by
  rw [(batchStored_eq (storeBatch_ok h).1).1]
  exact get_of_mem (fun st r => byId st r 0) byId_writeEntry he

/-- The deposits behind the stored schedules are those of the entries that are not overwritten. -/
theorem storedDeposits_of_storeBatch {u : Unit}
    (h : storeBatch host sponsor token streams env = .ok (u, env')) :
    storedDeposits env'.persistent (streams.map (·.recipient)) =
      ((lastWrites (·.recipient) streams).map deposit).sum := by
  unfold storedDeposits
  rw [← map_key_lastWrites, List.map_map]
  congr 1
  refine List.map_congr_left fun e he => ?_
  show ((byId env'.persistent e.recipient 0).map depositOf).getD 0 = deposit e
  rw [byId_of_storeBatch h he]
  exact depositOf_entrySchedule
    ((batchStored_eq (storeBatch_ok h).1).2 e (mem_of_mem_lastWrites he))

/-- The storage of a batch moves no tokens. -/
theorem balances_of_storeBatch {u : Unit} : ∀ {streams : List BatchEntry} {env : Env},
    storeBatch host sponsor token streams env = .ok (u, env') → env'.balances = env.balances
  | [], env, h => by
    unfold storeBatch at h
    rw [(pure_ok.mp h).2]
  | e :: rest, env, h => by
    unfold storeBatch at h
    obtain ⟨_, e1, he, h⟩ := bind_ok.mp h
    simp only [storeEntry, compute_bind_ok, persist_bind_ok, emit_ok] at he
    obtain ⟨cliff, -, fin, -, duration, -, announced, -, rfl⟩ := he
    have hrest := balances_of_storeBatch h
    exact hrest

/-- **The course of a successful batch**: the vault takes in the validated deposit, and then the
entries are stored. -/
theorem createBatchStreams_parts {u : Unit} {total : ℤ} {env0 : Env}
    (hval : validateBatch sponsor streams 0 env = .ok (total, env0))
    (h : createBatchStreams D host sponsor token streams env = .ok (u, env')) :
    vault D env' token = vault D env token + total ∧
      ∃ env1, env1.persistent = env.persistent ∧
        storeBatch host sponsor token streams env1 = .ok ((), env') := by
  unfold createBatchStreams at h
  rw [require_bind_ok] at h
  obtain ⟨total', e1, hval', h⟩ := bind_ok.mp h.2
  obtain ⟨rfl, rfl⟩ := Prod.mk.inj (Except.ok.inj (hval.symm.trans hval'))
  obtain ⟨-, rfl⟩ := validateBatch_ok hval
  simp only [asks_bind_ok, require_bind_ok, requireAuth_bind_ok] at h
  obtain ⟨-, ⟨-, hsponsor⟩, h⟩ := h
  obtain ⟨_, e2, htr, hstore⟩ := bind_ok.mp h
  obtain ⟨b, hb, rfl⟩ := tryTransfer_ok htr
  refine ⟨?_, { env with balances := b }, rfl, hstore⟩
  have hvault := (transfer_ok hb).2.2 token D.contractAddress
  unfold vault
  rw [balances_of_storeBatch hstore, hvault]
  simp [Ne.symm hsponsor]

/-- **When a validated batch is protected**: exactly if its recipients are distinct. In any case the
vault takes in the deposits of the stored schedules and of those that were overwritten. -/
theorem batchProtected_iff {total : ℤ} {env0 : Env}
    (hval : validateBatch sponsor streams 0 env = .ok (total, env0)) (D : Deployment) (host : Host)
    (token : Address) :
    (BatchProtected host sponsor token env streams total ↔
      (streams.map (·.recipient)).Nodup) ∧
    ∀ env', createBatchStreams D host sponsor token streams env = .ok ((), env') →
      vault D env' token = vault D env token +
        storedDeposits env'.persistent (streams.map (·.recipient)) +
          ((overwritten (·.recipient) streams).map deposit).sum := by
  have htotal := validateBatch_total hval
  rw [zero_add, sum_eq (·.recipient)] at htotal
  refine ⟨⟨fun h => h.distinct, fun hnodup => ?_⟩, fun env' h => ?_⟩
  · rw [lastWrites_of_nodup hnodup, overwritten_of_nodup hnodup] at htotal
    refine ⟨hnodup, fun e he => ((validateBatch_ok hval).1 e he).free, fun env1 env2 _ h e he => ?_,
      fun env1 env2 _ h => ?_⟩
    · exact byId_of_storeBatch h (by rwa [lastWrites_of_nodup hnodup])
    · rw [storedDeposits_of_storeBatch h, lastWrites_of_nodup hnodup, htotal]
      simp
  · obtain ⟨hvault, env1, -, hstore⟩ := createBatchStreams_parts hval h
    rw [hvault, storedDeposits_of_storeBatch hstore, htotal, add_assoc]

end Batches

/-- A batch that streams 1 token per ledger to `⟨2⟩`, for 100 ledgers and for 200. -/
def sampleTwice : List BatchEntry :=
  [⟨⟨2⟩, 10000000, 10, 100⟩, ⟨⟨2⟩, 10000000, 10, 200⟩]

theorem batchProtected_iff_sample :
    ¬ BatchProtected (sampleHost 100) ⟨1⟩ ⟨10⟩ sampleEnv sampleTwice 300 := by
  have hval : validateBatch ⟨1⟩ sampleTwice 0 sampleEnv = .ok (300, sampleEnv) := rfl
  exact fun h => absurd
    ((batchProtected_iff hval sampleDeployment (sampleHost 100) ⟨10⟩).1.mp h) (by decide)

/-- The batch is accepted: the vault takes in 300, and the one schedule stored is worth 200. -/
theorem batch_overwrites :
    (createBatchStreams sampleDeployment (sampleHost 100) ⟨1⟩ ⟨10⟩ sampleTwice sampleEnv).isOk =
        true ∧
      vault sampleDeployment (commit (createBatchStreams sampleDeployment (sampleHost 100) ⟨1⟩ ⟨10⟩
        sampleTwice) sampleEnv) ⟨10⟩ = vault sampleDeployment sampleEnv ⟨10⟩ + 300 ∧
      storedDeposits (commit (createBatchStreams sampleDeployment (sampleHost 100) ⟨1⟩ ⟨10⟩
        sampleTwice) sampleEnv).persistent (sampleTwice.map (·.recipient)) = 200 ∧
      ∀ total, ¬ BatchProtected (sampleHost 100) ⟨1⟩ ⟨10⟩ sampleEnv sampleTwice total := by
  refine ⟨by decide +kernel, by decide +kernel, by decide +kernel, fun total h => ?_⟩
  exact absurd h.distinct (by decide)

end VestingDripStream.Contract.Batches
