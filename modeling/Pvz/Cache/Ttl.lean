import Pvz.Cache.Lru

/-!
# The TTL both caches give an order

`SetOrder` of both backends computes
`ttl := min(time.Until(deadline) + additionalDuration, defaultOrderTTL)`
(`src/unnamed/part_010`, `src/pkg/cache/redis.go`): `time.Until` saturates at
`maxDuration`, and the sum of the two `Duration`s wraps as `int64` does.

For a deadline at or after `now`, the TTL is positive exactly when the exact
sum `deadline - now + additionalDuration` stays within `maxDuration`
(`orderTTL_pos_iff`), and then it also lies between
`min(deadline - now, defaultOrderTTL)` and `defaultOrderTTL`
(`orderTTL_bounds`). Past that the sum wraps to a negative TTL.

`parseDeadline` (`src/pkg/handler/user.go:300`, `src/pkg/grpc/utils.go:24`)
takes any duration `time.ParseDuration` accepts and returns
`time.Now().Add(dur)`, or any date of the layout `2006-01-02T15:04:05`. Both
reach past the bound: the duration `2562047h47m16.854775807s` is
`maxDuration`, and a date about 292 years ahead is as far
(`max_duration_deadline_ttl_negative`).
-/

namespace Pvz.Cache

theorem goSub_of_le {t u : Int} (h₁ : u ≤ t) (h₂ : t - u ≤ maxDuration) : goSub t u = t - u := by
  unfold goSub minDuration maxDuration at *; omega

theorem goSub_le (t u : Int) : goSub t u ≤ maxDuration := by
  unfold goSub minDuration maxDuration; omega

theorem wrap64_of_le {x : Int} (h₁ : minDuration ≤ x) (h₂ : x ≤ maxDuration) : wrap64 x = x := by
  unfold wrap64 minDuration maxDuration at *; omega

theorem wrap64_of_gt {x : Int} (h₁ : maxDuration < x) (h₂ : x ≤ 2 * maxDuration + 1) :
    wrap64 x = x - 18446744073709551616 := by
  unfold wrap64 maxDuration at *; omega

section Bounds

variable {now deadline additionalDuration defaultTTL : Int}

/-- Without overflow the TTL is the exact sum, capped at the default. -/
theorem orderTTL_of_le (hd : now ≤ deadline) (ha : 0 ≤ additionalDuration)
    (hno : deadline - now + additionalDuration ≤ maxDuration) :
    orderTTL now deadline additionalDuration defaultTTL = min (deadline - now + additionalDuration) defaultTTL := by
  rw [orderTTL, goSub_of_le hd (by omega), wrap64_of_le (by unfold minDuration; omega) hno]

/-- Past `maxDuration` the sum wraps by `2^64`. -/
theorem orderTTL_of_gt (ha : additionalDuration ≤ maxDuration)
    (hov : maxDuration < goSub deadline now + additionalDuration) :
    orderTTL now deadline additionalDuration defaultTTL =
      min (goSub deadline now + additionalDuration - 18446744073709551616) defaultTTL := by
  rw [orderTTL, wrap64_of_gt hov (by have := goSub_le deadline now; omega)]

/-- Within `maxDuration`, the TTL is positive, at most the default, and at
least the time to the deadline or the default. -/
theorem orderTTL_bounds (hd : now ≤ deadline) (ha : 0 < additionalDuration) (ht : 0 < defaultTTL)
    (hno : deadline - now + additionalDuration ≤ maxDuration) :
    0 < orderTTL now deadline additionalDuration defaultTTL ∧
      orderTTL now deadline additionalDuration defaultTTL ≤ defaultTTL ∧
      min (deadline - now) defaultTTL ≤ orderTTL now deadline additionalDuration defaultTTL := by
  rw [orderTTL_of_le hd ha.le hno]; omega

/-- Past `maxDuration`, whether by the exact difference or by the saturated
one, the TTL is negative. -/
theorem orderTTL_neg (hd : now ≤ deadline) (ha : 0 < additionalDuration) (ha' : additionalDuration ≤ maxDuration)
    (hov : maxDuration < deadline - now + additionalDuration) :
    orderTTL now deadline additionalDuration defaultTTL < 0 := by
  have hsum : maxDuration < goSub deadline now + additionalDuration := by
    unfold goSub minDuration maxDuration at *; omega
  rw [orderTTL_of_gt ha' hsum]
  have := goSub_le deadline now
  unfold maxDuration at *; omega

/-- For a deadline at or after `now`, the TTL is positive exactly when the
exact sum stays within `maxDuration`. -/
theorem orderTTL_pos_iff (hd : now ≤ deadline) (ha : 0 < additionalDuration) (ha' : additionalDuration ≤ maxDuration)
    (ht : 0 < defaultTTL) :
    0 < orderTTL now deadline additionalDuration defaultTTL ↔ deadline - now + additionalDuration ≤ maxDuration :=
  ⟨fun hp => not_lt.1 fun hov => absurd (orderTTL_neg hd ha ha' hov) (not_lt.2 hp.le),
    fun hno => (orderTTL_bounds hd ha ht hno).1⟩

end Bounds

/-- The Redis constants of `config.json` (`order_key_prefix` `order:`,
`history_key_prefix` `history`, `order_ttl` 1440, `history_ttl` 10,
`additional_duration` 60). -/
def redisConfigConsts : RedisConstants := .ofConfig "order:" "history" 1440 10 60

/-- Under the constants of `config.json`, an order due `maxDuration` after the
clock reading, as `parseDeadline` makes it for the duration
`2562047h47m16.854775807s`, gets a negative TTL from both backends: the
in-process cache stores it already expired, and Redis stores it with no
expiry. -/
theorem max_duration_deadline_ttl_negative (now : Int) :
    ∃ o : Order, o.deadlineAt = now + maxDuration ∧
      orderTTL now o.deadlineAt configConsts.additionalDuration configConsts.inmemDefaultOrderTTL < 0 ∧
      orderTTL now o.deadlineAt redisConfigConsts.additionalDuration redisConfigConsts.defaultOrderTTL < 0 ∧
      (∀ it ∈ ((InMemoryCache.empty configConsts).setOrder now o).2.elems, it.entry.ttl < now) ∧
      ((⟨[], redisConfigConsts⟩ : RedisCache).setOrder now o).2.keyspace =
        [⟨redisConfigConsts.orderKeyPrefix ++ toString o.id, .order o, none⟩] := by
  let o : Order := ⟨1, 1, .accepted, 5, 100, none, none, now + maxDuration, now, none, none⟩
  have hlive : ¬ now > o.deadlineAt := by show ¬ now > now + maxDuration; unfold maxDuration; omega
  have hd : now ≤ o.deadlineAt := le_of_not_lt hlive
  have hov : maxDuration < o.deadlineAt - now + 3600000000000 := by
    show maxDuration < now + maxDuration - now + 3600000000000; omega
  have hin : orderTTL now o.deadlineAt configConsts.additionalDuration configConsts.inmemDefaultOrderTTL < 0 :=
    orderTTL_neg hd (by decide) (by decide) hov
  have hredis : orderTTL now (now + maxDuration) redisConfigConsts.additionalDuration redisConfigConsts.defaultOrderTTL
      < -1 := (orderTTL_far now).trans_lt (by decide)
  have hredis' := hredis.trans (show (-1 : Int) < 0 by decide)
  refine ⟨o, rfl, hin, hredis', ?_, ?_⟩
  · rw [InMemoryCache.setOrder_empty _ hlive]
    intro it hit
    rw [List.mem_singleton.1 hit]
    show now + _ < now
    omega
  · simp only [RedisCache.setOrder, if_neg hlive, RedisCache.set, RedisCache.orderKey, setExpiry,
      if_neg (not_lt.2 hredis'.le), if_neg hredis.ne]
    rfl

end Pvz.Cache
