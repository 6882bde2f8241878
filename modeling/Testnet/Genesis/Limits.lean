import Testnet.Json.Decode
import Testnet.Json.Written

/-!
# Limits

The resource limits that a chain starts with. Any of them may be missing where they are read, and
then has its standard value.
-/

namespace Testnet

structure Limits where
  maxBlockNetUsage : UInt64
  targetBlockNetUsagePct : UInt32
  maxTransactionNetUsage : UInt32
  basePerTransactionNetUsage : UInt32
  netUsageLeeway : UInt32
  contextFreeDiscountNetUsageNum : UInt32
  contextFreeDiscountNetUsageDen : UInt32
  maxBlockCpuUsage : UInt32
  targetBlockCpuUsagePct : UInt32
  maxTransactionCpuUsage : UInt32
  minTransactionCpuUsage : UInt32
  maxTransactionLifetime : UInt32
  deferredTrxExpirationWindow : UInt32
  maxTransactionDelay : UInt32
  maxInlineActionSize : UInt32
  maxInlineActionDepth : UInt16
  maxAuthorityDepth : UInt16
deriving DecidableEq, Repr

namespace Limits

open Json

def standard : Limits where
  maxBlockNetUsage := 1048576
  targetBlockNetUsagePct := 1000
  maxTransactionNetUsage := 524288
  basePerTransactionNetUsage := 12
  netUsageLeeway := 500
  contextFreeDiscountNetUsageNum := 20
  contextFreeDiscountNetUsageDen := 100
  maxBlockCpuUsage := 200000
  targetBlockCpuUsagePct := 1000
  maxTransactionCpuUsage := 150000
  minTransactionCpuUsage := 100
  maxTransactionLifetime := 3600
  deferredTrxExpirationWindow := 600
  maxTransactionDelay := 3888000
  maxInlineActionSize := 524288
  maxInlineActionDepth := 4
  maxAuthorityDepth := 6

def fieldNames : List String :=
  ["max_block_net_usage", "target_block_net_usage_pct", "max_transaction_net_usage",
    "base_per_transaction_net_usage", "net_usage_leeway",
    "context_free_discount_net_usage_num", "context_free_discount_net_usage_den",
    "max_block_cpu_usage", "target_block_cpu_usage_pct", "max_transaction_cpu_usage",
    "min_transaction_cpu_usage", "max_transaction_lifetime", "deferred_trx_expiration_window",
    "max_transaction_delay", "max_inline_action_size", "max_inline_action_depth",
    "max_authority_depth"]

/-- The limits in the order of their names. -/
def toList (l : Limits) : List Nat :=
  [l.maxBlockNetUsage.toNat, l.targetBlockNetUsagePct.toNat, l.maxTransactionNetUsage.toNat,
    l.basePerTransactionNetUsage.toNat, l.netUsageLeeway.toNat,
    l.contextFreeDiscountNetUsageNum.toNat, l.contextFreeDiscountNetUsageDen.toNat,
    l.maxBlockCpuUsage.toNat, l.targetBlockCpuUsagePct.toNat, l.maxTransactionCpuUsage.toNat,
    l.minTransactionCpuUsage.toNat, l.maxTransactionLifetime.toNat,
    l.deferredTrxExpirationWindow.toNat, l.maxTransactionDelay.toNat,
    l.maxInlineActionSize.toNat, l.maxInlineActionDepth.toNat, l.maxAuthorityDepth.toNat]

def toJson (l : Limits) : Value := .object (fieldNames.zip (l.toList.map .ofNat))

def word16? (standard : UInt16) : Option Raw → Option UInt16 :=
  Raw.orElse? (fun r => (r.nat? UInt16.size).map UInt16.ofNat) standard

def word32? (standard : UInt32) : Option Raw → Option UInt32 :=
  Raw.orElse? (fun r => (r.nat? UInt32.size).map UInt32.ofNat) standard

def word64? (standard : UInt64) : Option Raw → Option UInt64 :=
  Raw.orElse? (fun r => (r.nat? UInt64.size).map UInt64.ofNat) standard

def ofJson? (r : Raw) : Option Limits := do
  match ← r.members? fieldNames with
  | [blockNet, blockNetPct, transactionNet, baseNet, leeway, discountNum, discountDen, blockCpu,
      blockCpuPct, maxCpu, minCpu, lifetime, window, delay, actionSize, actionDepth,
      authorityDepth] =>
    return {
      maxBlockNetUsage := ← word64? standard.maxBlockNetUsage blockNet
      targetBlockNetUsagePct := ← word32? standard.targetBlockNetUsagePct blockNetPct
      maxTransactionNetUsage := ← word32? standard.maxTransactionNetUsage transactionNet
      basePerTransactionNetUsage := ← word32? standard.basePerTransactionNetUsage baseNet
      netUsageLeeway := ← word32? standard.netUsageLeeway leeway
      contextFreeDiscountNetUsageNum := ←
        word32? standard.contextFreeDiscountNetUsageNum discountNum
      contextFreeDiscountNetUsageDen := ←
        word32? standard.contextFreeDiscountNetUsageDen discountDen
      maxBlockCpuUsage := ← word32? standard.maxBlockCpuUsage blockCpu
      targetBlockCpuUsagePct := ← word32? standard.targetBlockCpuUsagePct blockCpuPct
      maxTransactionCpuUsage := ← word32? standard.maxTransactionCpuUsage maxCpu
      minTransactionCpuUsage := ← word32? standard.minTransactionCpuUsage minCpu
      maxTransactionLifetime := ← word32? standard.maxTransactionLifetime lifetime
      deferredTrxExpirationWindow := ← word32? standard.deferredTrxExpirationWindow window
      maxTransactionDelay := ← word32? standard.maxTransactionDelay delay
      maxInlineActionSize := ← word32? standard.maxInlineActionSize actionSize
      maxInlineActionDepth := ← word16? standard.maxInlineActionDepth actionDepth
      maxAuthorityDepth := ← word16? standard.maxAuthorityDepth authorityDepth }
  | _ => none

end Limits

end Testnet
