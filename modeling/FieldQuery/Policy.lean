import FieldQuery.Value.Basic

/-!
# Policies

A policy is a set of named options that a caller passes along with an
operation. Only the options that a store call knows are handed on to the
store.
-/

namespace FieldQuery

/-- Named options in ascending order of their names. -/
abbrev Policy :=
  Members Value

namespace Policy

/-- The options that a store call knows. -/
def storeOptions : List String :=
  [ "max_retries", "sleep_between_retries", "socket_timeout", "total_timeout",
    "compress", "key", "gen", "replica", "commit_level", "read_mode_ap",
    "read_mode_sc", "exists", "durable_delete", "expressions" ]

/-- The options of a policy that a store call knows. -/
def forStore
    (policy : Policy) :
    Policy :=
  policy.filter fun option => storeOptions.contains option.1

/-- The names of the options that are not handed on to the store. -/
def dropped
    (policy : Policy) :
    List String :=
  (Members.names policy).filter fun name => !storeOptions.contains name

end Policy
end FieldQuery
