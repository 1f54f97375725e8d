import Vfs.Amount
import Vfs.Config
import Vfs.Entry.Basic
import Vfs.Entry.Page
import Vfs.Failure.Basic
import Vfs.Failure.Fault
import Vfs.Failure.Identity
import Vfs.Filesystem.Basic
import Vfs.Filesystem.Build
import Vfs.Filesystem.Conformance
import Vfs.Filesystem.Copy
import Vfs.Filesystem.Delegate
import Vfs.Filesystem.Dispatch
import Vfs.Filesystem.Search
import Vfs.Filesystem.Walk
import Vfs.Glob.Match
import Vfs.Glob.Scan
import Vfs.Glob.Token
import Vfs.Host.Call
import Vfs.Host.Filesystem
import Vfs.Host.Operations
import Vfs.Host.Route
import Vfs.Host.Stream
import Vfs.Host.Tree.Basic
import Vfs.Host.Tree.Creation
import Vfs.Host.Tree.Query
import Vfs.Host.Tree.Removal
import Vfs.Info
import Vfs.Instant
import Vfs.Memory.Change
import Vfs.Memory.Filesystem
import Vfs.Memory.Handle
import Vfs.Memory.Key
import Vfs.Memory.Lookup
import Vfs.Memory.Volume
import Vfs.Mode
import Vfs.Path.Clean
import Vfs.Path.Elements
import Vfs.Path.Valid
import Vfs.Store.Assoc
import Vfs.Store.Basic
import Vfs.Store.Search
import Vfs.Text
import Vfs.Text.CodePoint
import Vfs.Text.Encoding
import Vfs.Text.Literal
import Vfs.Text.Printable
import Vfs.Text.Quoted
import Vfs.World
import Vfs.Proofs.Store.Row
import Vfs.Proofs.Store.Contents
import Vfs.Proofs.Store.Refinement
import Vfs.Proofs.Store.Subtree
import Vfs.Proofs.Memory.Key
import Vfs.Proofs.Memory.Lookup
import Vfs.Proofs.Memory.Session
import Vfs.Proofs.Memory.Subtree
import Vfs.Proofs.Memory.Independence
import Vfs.Proofs.Memory.Tree
import Vfs.Proofs.Memory.LastWrite
import Vfs.Proofs.Glob.Literal
import Vfs.Proofs.Memory.SubView
import Vfs.Proofs.Glob.Grammar
import Vfs.Proofs.Glob.Language
import Vfs.Proofs.Memory.Stale
import Vfs.Proofs.Memory.Atomic
import Vfs.Proofs.Memory.Listing
import Vfs.Proofs.Memory.Walk
import Vfs.Proofs.Memory.Orphan
import Vfs.Proofs.Memory.Consistency
import Vfs.Proofs.Glob.Elements
import Vfs.Proofs.Action
import Vfs.Proofs.Path.Steps
import Vfs.Proofs.Filesystem.Asking
import Vfs.Proofs.Filesystem.Search
import Vfs.Proofs.Host.Confined
import Vfs.Proofs.Scene
import Vfs.Proofs.Text.Encoding
import Vfs.Proofs.Path.Encoding
import Vfs.Proofs.Host.Route
import Vfs.Proofs.Host.Scene
import Vfs.Proofs.Memory.Scene
import Vfs.Proofs.Host.Stream
import Vfs.Proofs.Host.Changes
import Vfs.Proofs.Filesystem.Demand
import Vfs.Proofs.Memory.Demand
import Vfs.Proofs.Host.Asking
import Vfs.Proofs.Host.Demand
import Vfs.Proofs.Filesystem.Backends
import Vfs.Proofs.Memory.Laying
import Vfs.Proofs.Memory.Preorder
import Vfs.Proofs.Memory.Spread
import Vfs.Proofs.Filesystem.Pouring
import Vfs.Proofs.Filesystem.Errand
import Vfs.Proofs.Filesystem.Copying
import Vfs.Proofs.Memory.Copy
import Vfs.Proofs.Memory.Interruption
import Vfs.Proofs.Memory.Overlap
import Vfs.Proofs.Glob.Escape
import Vfs.Proofs.Filesystem.Emulation
import Vfs.Proofs.Filesystem.Naming
import Vfs.Proofs.Filesystem.Checking
import Vfs.Proofs.Filesystem.Transfer
import Vfs.Proofs.Memory.Transfer
import Vfs.Proofs.Host.Transfer
import Vfs.Proofs.Filesystem.RoundTrip
import Vfs.Proofs.Memory.Snapshot
import Vfs.Proofs.Filesystem.Paging
import Vfs.Proofs.Host.Natural
import Vfs.Proofs.Filesystem.Pages
import Vfs.Proofs.Filesystem.Enumeration
import Vfs.Proofs.Filesystem.Unwritable
import Vfs.Proofs.Path.Order
import Vfs.Proofs.Memory.Making
import Vfs.Proofs.Memory.Writing
import Vfs.Proofs.Filesystem.SearchOrder
import Vfs.Proofs.Filesystem.Refusal
import Vfs.Proofs.Failure.Classes
import Vfs.Proofs.Failure.Sameness
import Vfs.Proofs.Memory.Spelling
import Vfs.Proofs.Memory.Commutation
import Vfs.Proofs.Memory.Scratch
import Vfs.Proofs.Filesystem.WriteCheck
import Vfs.Proofs.Memory.Closed
import Vfs.Proofs.Path.Clean
import Vfs.Proofs.Path.Valid
import Vfs.Proofs.Memory.Correspondence
import Vfs.Proofs.Host.Nesting
