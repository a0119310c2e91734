import Irods.Core.CachedStructFile
import Irods.Core.CatGenQuery
import Irods.Core.CountedRepeat
import Irods.Core.KeyVal
import Irods.Core.NextElement
import Irods.Core.ObfFile
import Irods.Core.ObfV2
import Irods.Core.PathResolver
import Irods.Core.PropertyScan
import Irods.Core.ReplicaChoice
import Irods.Core.ResourceGroups
import Irods.Core.SecondRun
import Irods.Core.TextBuffers
import Irods.Core.TimeFormats
import Irods.Core.UserName
import Irods.Frontend.GrammarExact
import Irods.Frontend.Pointer
import Irods.Fuse.CommitFailures
import Irods.Fuse.ConnDiscipline
import Irods.Fuse.ConnHeld
import Irods.Fuse.DescCount
import Irods.Fuse.DescOffset
import Irods.Fuse.Eviction
import Irods.Fuse.OneObject
import Irods.Fuse.PathQueueRuns
import Irods.Fuse.PreloadBound
import Irods.Fuse.PreloadFresh
import Irods.Fuse.PreloadViews
import Irods.Fuse.SameCalls
import Irods.Icat.AccessMemo
import Irods.Icat.BindsExact
import Irods.Icat.BufferUse
import Irods.Icat.Contributions
import Irods.Icat.CycleCheck
import Irods.Icat.ResultSizes
import Irods.Icat.SlotOwners
import Irods.Icat.TicketBytes
import Irods.Icat.TicketRestrictions
import Irods.Isio.Refinement
import Irods.Pack.ReceivedLists
import Irods.Pack.Room
import Irods.Pack.XmlRoundTrip
import Irods.Re.CacheSnapshot
import Irods.Re.IndexRefinement
import Irods.Re.Like
import Irods.Re.Loops
import Irods.Re.NextRule
import Irods.Re.ParameterArray
import Irods.Re.Region
import Irods.Re.RuleOrder
import Irods.Re.RuleSyntax
import Irods.Re.SolverReturns
import Irods.Re.Split
import Irods.Re.SubmissionKept
import Irods.Re.TableLists
import Irods.Re.UnifySound
import Irods.Xmsg.Delivery
import Irods.Xmsg.Requests
