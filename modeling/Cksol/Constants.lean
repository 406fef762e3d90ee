import Cksol.Solana.Sdk
import Cksol.Utils.TimedSizedMap

/-! # Constants of the minter -/

namespace Cksol

/-- Maximum number of concurrent calls to the SOL RPC canister. -/
def maxConcurrentRpcCalls : ℕ := 10

/-- Maximum number of concurrent threshold signing requests in a single round of a timer. -/
def maxConcurrentSignatures : ℕ := 10

/-- Maximum number of pending mints sent to the ckSOL ledger in a single round. -/
def maxPendingMintsPerRound : ℕ := 10

/-- The window within which the ckSOL ledger deduplicates transfers. -/
def ledgerDeduplicationWindow : Duration := Duration.fromHours 24

/-- Cycles to attach for `getBalance` RPC calls. -/
def getBalanceCycles : ℕ := 10_000_000_000

/-- Cost in lamports per signature included in a Solana transaction. -/
def feePerSignature : Lamport := 5_000

/-- Minimum balance that keeps a zero-data Solana account rent-exempt. -/
def rentExemptionThreshold : Lamport := 890_880

/-- Maximum number of signatures of a sweep transaction. -/
def maxSignatures : ℕ := 10

/-- The size of a packet on the network. -/
def maxTxSize : ℕ := 1_232

def bytesPerSignature : ℕ := 64

/-- Maximum number of withdrawal transfers batched into a single durable-nonce transaction. -/
def maxWithdrawalsPerNonceTx : ℕ := 10

/-- Fee of a batch withdrawal transaction, which is signed by the fee payer only. -/
def batchWithdrawalTxFee : Lamport := feePerSignature

def maxDepositsPerSweep : ℕ := maxSignatures

/-- Maximum number of requests that hold a guard at once. -/
def maxConcurrent : ℕ := 100

/-- How many blocks after its own a blockhash can still be used. -/
def maxBlockhashAgeInBlocks : ℕ := 150

/-- Maximum number of signatures per `getSignatureStatuses` call. -/
def maxSignaturesPerStatusCheck : ℕ := 256

/-! Delays of the timers: the regular interval of each task, and how soon a round may run it again. -/

def withdrawalProcessingDelay : Duration := Duration.fromMins 1

def withdrawalProcessingRetryDelay : Duration := Duration.fromSecs 10

def finalizeTransactionsRetryDelay : Duration := Duration.fromSecs 10

def sweepDepositsDelay : Duration := Duration.fromMins 1

def processPendingMintsDelay : Duration := Duration.fromMins 1

@[simp] theorem toNat_feePerSignature : feePerSignature.toNat = 5000 := rfl

@[simp] theorem toNat_rentExemptionThreshold : rentExemptionThreshold.toNat = 890880 := rfl

@[simp] theorem toNat_batchWithdrawalTxFee : batchWithdrawalTxFee.toNat = 5000 := rfl

end Cksol
