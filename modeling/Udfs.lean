import Udfs.D6502.Assembler
import Udfs.D6502.Bounds
import Udfs.D6502.Directives
import Udfs.D6502.Program
import Udfs.D6502.Reassembly
import Udfs.D6502.Regions
import Udfs.Lib.Byte
import Udfs.Lib.Calls
import Udfs.Lib.Counter
import Udfs.Lib.Extents
import Udfs.Lib.Keyed
import Udfs.Lib.Mos6502
import Udfs.Lib.Prog
import Udfs.Lib.Reader
import Udfs.Lib.Selection
import Udfs.Lib.Thread
import Udfs.Lib.Transition
import Udfs.Link.Answering
import Udfs.Link.Code
import Udfs.Link.CodeSys
import Udfs.Link.Delivery
import Udfs.Link.FarSide
import Udfs.Link.Firmware
import Udfs.Link.Following
import Udfs.Link.Invariant
import Udfs.Link.Places
import Udfs.Link.Protocol
import Udfs.Link.Receive
import Udfs.Link.Record
import Udfs.Link.Reply
import Udfs.Link.Resets
import Udfs.Link.RomSide
import Udfs.Link.SendMsg
import Udfs.Link.Strobe
import Udfs.Link.System
import Udfs.Rom.Answers
import Udfs.Rom.Block
import Udfs.Rom.Catalogue
import Udfs.Rom.Channels
import Udfs.Rom.Chunks
import Udfs.Rom.Closing
import Udfs.Rom.Coherence
import Udfs.Rom.Compact
import Udfs.Rom.Destroy
import Udfs.Rom.DiskNumber
import Udfs.Rom.Dispatch
import Udfs.Rom.Drives
import Udfs.Rom.Drom
import Udfs.Rom.Durable
import Udfs.Rom.Entries
import Udfs.Rom.Exclusion
import Udfs.Rom.Expand
import Udfs.Rom.Extension
import Udfs.Rom.Files
import Udfs.Rom.Gbpb
import Udfs.Rom.Grammar
import Udfs.Rom.Holding
import Udfs.Rom.Layout
import Udfs.Rom.Listing
import Udfs.Rom.Loads
import Udfs.Rom.Media
import Udfs.Rom.Mount
import Udfs.Rom.Opening
import Udfs.Rom.Osfile
import Udfs.Rom.Osword
import Udfs.Rom.Overrun
import Udfs.Rom.Placement
import Udfs.Rom.Reading
import Udfs.Rom.Reclaim
import Udfs.Rom.Refusals
import Udfs.Rom.RememberAxy
import Udfs.Rom.Rename
import Udfs.Rom.SavedFiles
import Udfs.Rom.Search
import Udfs.Rom.Sharing
import Udfs.Rom.Space
import Udfs.Rom.StarCat
import Udfs.Rom.State
import Udfs.Rom.Store
import Udfs.Rom.Streams
import Udfs.Rom.Title
import Udfs.Rom.Updating
import Udfs.Rom.Upkeep
import Udfs.Rom.WholeFiles
import Udfs.Rom.Writing
import Udfs.Server.Announce
import Udfs.Server.Independence
import Udfs.Server.Request
import Udfs.Server.Survival
import Udfs.Tools.Xbm2bbc
import Udfs.Uptx.Program
import Udfs.Uptx.Syntax
import Udfs.Uptx.Transfer
